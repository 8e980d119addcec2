import Multicast.Proofs.Fifo.Stream

/-! A FIFO layer delivers the payloads of a sender in the order in which they were sent, whatever
the network does to the packets. -/
namespace Multicast.FifoGroup
open FifoRecord

variable {a b : Proc} {limit : Proc → Option Nat} {lists : Proc → List Proc}

theorem layers_opened {p : Proc} (h : (lists p).Nodup) : (opened limit lists).layers p =
    { here := p, limit := limit p, initialized := true, members := lists p,
      sent := (lists p).map (·, 0), sources := (lists p).map (·, {}) } :=
  FifoLayer.after_init rfl h

theorem numbered_opened (h : (lists a).Nodup) (hb : b ∈ lists a) :
    (opened limit lists).Numbered a b (some 0) where
  number := by
    rw [layers_opened h, Table.get?_const, if_pos hb]
    rfl
  packets := rfl
  silent := fun hnone => by cases hnone

theorem followed_opened (h : (lists b).Nodup) (ha : a ∈ lists b) :
    (opened limit lists).Followed a b 0 := by
  refine .fresh rfl ?_ ?_
  · rw [layers_opened h]
  · rw [layers_opened h, Table.get?_const, if_pos ha]

/-- With `n` the least number of a packet of `a` that `b` has not accepted, `b` has delivered the
first `n` payloads that `a` has sent it, once each and in their order, and keeps those with a higher
number that it has accepted. Without a bound it has delivered all of them once all have come. -/
theorem stream_delivered (a b : Proc) (limit : Proc → Option Nat) (lists : Proc → List Proc)
    (actions : List (Proc × FifoCall)) (ha : (lists a).Nodup) (hb : (lists b).Nodup)
    (hab : b ∈ lists a) (hba : a ∈ lists b)
    (hcarried : (opened limit lists).Carried a b actions) :
    let g := (opened limit lists).run actions
    let sent := payloads g.log a b
    let numbers := (accepted g.log a b).map (·.sequence)
    ∃ n buffer, (g.layers b).sources.get? a = some ⟨n, buffer⟩ ∧
      (g.layers b).expectedSequence? a = some n ∧
      (∀ m < n, m ∈ numbers) ∧ n ∉ numbers ∧
      n ≤ sent.length ∧ delivered g.log a b = sent.take n ∧
      buffer.Pairwise (·.1 < ·.1) ∧
      (∀ m payload, (m, payload) ∈ buffer ↔ n < m ∧ m ∈ numbers ∧ sent[m]? = some payload) ∧
      (limit b = none → packets g.log a b ⊆ arrived g.log a b →
        delivered g.log a b = sent ∧ (g.layers b).buffered a = 0) := by
  intro g sent numbers
  have hstart : ∀ n, some 0 = some n → n = 0 := by
    intro n h
    cases h
    rfl
  have hn : g.Numbered a b (some 0) := numbered_run hcarried (numbered_opened ha hab)
  have hf : g.Followed a b 0 :=
    followed_run hcarried (numbered_opened ha hab) hstart (followed_opened hb hba)
  obtain ⟨⟨n, buffer⟩, hs, hfollows, hhas⟩ := hf.source
  have hlength : n = (delivered g.log a b).length := hfollows.expected.trans (Nat.zero_add _)
  have hmissing : n ∉ numbers := fun hmem => hfollows.not_has_expected ((hhas n).mpr hmem)
  refine ⟨n, buffer, hs, ?_, ?_, hmissing, ?_, ?_, hfollows.ascending, ?_, ?_⟩
  · rw [FifoLayer.expectedSequence?, hs]
    rfl
  · intro m hm
    exact (hhas m).mp ⟨Nat.zero_le m, Or.inl hm⟩
  · rw [hlength]
    exact hfollows.delivered.length_le
  · rw [hlength]
    exact List.prefix_iff_eq_take.mp hfollows.delivered
  · intro m payload
    rw [hfollows.mem_buffer, hhas, List.mk_mem_zipIdx_iff_le_and_getElem?_sub]
    exact ⟨fun ⟨hlt, hmem, hsent⟩ => ⟨hlt, hmem, hsent.2⟩,
      fun ⟨hlt, hmem, hsent⟩ => ⟨hlt, hmem, Nat.zero_le m, hsent⟩⟩
  · intro hlimit hcome
    have hopen : (g.layers b).limit = none := by
      rw [limit_run hcarried, layers_opened hb]
      exact hlimit
    obtain ⟨hall, hrest⟩ :=
      hf.complete hn hstart fun _ hpacket => hf.unbounded hopen (hcome hpacket)
    refine ⟨hall, ?_⟩
    rw [FifoLayer.buffered, hrest]
    rfl

/-- The first payload is delayed, the second comes early and twice. -/
def overtaking (a b : Proc) : List (Proc × FifoCall) :=
  [(a, .send [0] [b]), (a, .send [1] [a, b, b]), (b, .deliver a ⟨1, [1]⟩),
    (b, .deliver a ⟨1, [1]⟩), (b, .deliver a ⟨0, [0]⟩)]

theorem overtaking_delivered : let a : Proc := ⟨"a", 1, 0⟩
    let b : Proc := ⟨"b", 1, 0⟩
    let g := (opened (fun _ => none) (fun _ => [a, b])).run (overtaking a b)
    delivered g.log a b = payloads g.log a b ∧ (g.layers b).buffered a = 0 := by
  intro a b
  obtain ⟨n, buffer, -, -, -, -, -, -, -, -, hall⟩ := stream_delivered a b (fun _ => none)
    (fun _ => [a, b]) (overtaking a b) (by decide) (by decide) (by decide) (by decide) (by decide)
  exact hall rfl (by decide)

end Multicast.FifoGroup
