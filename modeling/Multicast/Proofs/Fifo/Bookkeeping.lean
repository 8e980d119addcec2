import Mathlib.Data.List.Perm.Basic
import Multicast.Proofs.Fifo.Views

/-! What a FIFO layer keeps, whatever it is asked to do and whatever packets come in: a counter and
a stream for each of its members and for nobody else, and of a stream only what is still to come. -/
namespace Multicast

namespace FifoSource
variable {s s' : FifoSource} {packet : FifoPacket} {payloads : List Bytes} {n : Nat}

/-- What waits is in the order of its numbers, which all come after the one that is expected. -/
structure InOrder (s : FifoSource) : Prop where
  ascending : s.buffer.Pairwise (·.1 < ·.1)
  later : ∀ x ∈ s.buffer, s.expected < x.1

theorem inOrder_start : (⟨n, []⟩ : FifoSource).InOrder := ⟨List.Pairwise.nil, by simp⟩

theorem InOrder.keep (h : s.InOrder) (hearly : s.expected < packet.sequence) :
    (s.keep packet).InOrder := by
  refine ⟨ascending_keep h.ascending, ?_⟩
  intro x hx
  rcases mem_of_mem_insertAscending hx with rfl | hx
  · exact hearly
  · exact h.later x hx

/-- To drain the buffer takes all packets from it whose turn has come. -/
theorem InOrder.drain (h : s.InOrder)
    (hdrain : drain (s.expected + 1) s.buffer = (payloads, s')) :
    s'.InOrder ∧ s.expected < s'.expected ∧ s'.buffer.length ≤ s.buffer.length := by
  obtain ⟨ps, rest, hspec, hsplit, hhigh⟩ := drain_spec h.ascending h.later
  obtain ⟨rfl, rfl⟩ := Prod.mk.inj (hdrain.symm.trans hspec)
  have hascending := h.ascending
  rw [hsplit] at hascending
  refine ⟨⟨(List.pairwise_append.mp hascending).2.1, hhigh⟩, ?_, ?_⟩
  · dsimp only
    omega
  · rw [hsplit, List.length_append]
    dsimp only
    omega

end FifoSource

namespace FifoLayer

variable {l l' : FifoLayer} {c : FifoCall} {o : FifoOutput} {ms : List Proc} {p q : Proc}
  {s s' : FifoSource} {packet : FifoPacket} {limit : Nat} {calls : List FifoCall}

/-- The layer of a process before it has a member list. -/
def fresh (here : Proc) (limit : Option Nat) : FifoLayer := { here, limit }

/-- The layer after some calls, one after another. -/
def run (l : FifoLayer) (calls : List FifoCall) : FifoLayer := calls.foldl after l

/-- The books of a layer agree with its member list, and its buffers with their bound. -/
structure Kept (l : FifoLayer) : Prop where
  unused : l.initialized = false → l.members = []
  members : l.members.Nodup
  sent : l.sent.keys.Perm l.members
  sources : l.sources.keys.Perm l.members
  /-- Nothing waits whose turn has come. -/
  streams : ∀ p s, l.sources.get? p = some s → s.InOrder
  bounded : ∀ limit, l.limit = some limit → ∀ p, l.buffered p ≤ limit

theorem kept_fresh {bound : Option Nat} : (fresh p bound).Kept :=
  ⟨fun _ => rfl, List.nodup_nil, .refl _, .refl _, by simp [fresh], by simp [fresh, buffered]⟩

theorem buffered_of_get? (h : l.sources.get? p = some s) : l.buffered p = s.buffer.length := by
  rw [buffered, h]
  rfl

theorem Kept.tidy (hl : l.Kept) : l.Tidy where
  unused := hl.unused
  sent _ hp := Table.get?_eq_none.mpr (mt hl.sent.mem_iff.mp hp)
  sources _ hp := Table.get?_eq_none.mpr (mt hl.sources.mem_iff.mp hp)

theorem Kept.ready (hl : l.Kept) (hs : l.sources.get? p = some s) : l.initialized = true := by
  by_contra hnot
  have hnone : l.members = [] := hl.unused (by simpa using hnot)
  have hout : p ∉ l.members := by simp [hnone]
  rw [hl.tidy.sources p hout] at hs
  cases hs

/-! ### Member lists -/

/-- A new list leaves one entry for each of its members. -/
theorem keys_moved {β : Type} {t : Table Proc β} {v : β} {old : List Proc} (hold : old.Nodup)
    (ht : t.keys.Perm old) (hn : ms.Nodup) :
    (ms.foldl (fun t p => Table.putNew t p v)
      (t.filter fun e => e.1 ∈ ms || e.1 ∉ old)).keys.Perm ms := by
  have hfilter : Table.keys (t.filter fun e => e.1 ∈ ms || e.1 ∉ old) =
      t.keys.filter fun p => p ∈ ms || p ∉ old :=
    Table.keys_filter fun p => p ∈ ms || p ∉ old
  have hkeys : t.keys.Nodup := ht.symm.nodup hold
  refine (List.perm_ext_iff_of_nodup (Table.nodup_keys_foldl_putNew ?_) hn).mpr ?_
  · rw [hfilter]
    exact hkeys.filter _
  · intro p
    rw [Table.mem_keys_foldl_putNew, hfilter, List.mem_filter, ht.mem_iff]
    constructor
    · rintro (⟨hin, hstays⟩ | hp)
      · simpa [hin] using hstays
      · exact hp
    · exact .inr

/-- Those who stay go on where they are, and those who come start with nothing. -/
theorem Moves.kept (h : l.Moves ms l') (hl : l.Kept) (hn : ms.Nodup) (hlimit : l'.limit = l.limit)
    (hsent : l'.sent.keys.Perm ms) (hsources : l'.sources.keys.Perm ms) : l'.Kept where
  unused hnew := by
    rw [h.initialized] at hnew
    cases hnew
  members := by rwa [h.members]
  sent := by rwa [h.members]
  sources := by rwa [h.members]
  streams p s hs := by
    rw [h.sources] at hs
    split at hs
    · cases hold : l.sources.get? p with
      | none =>
        rw [hold] at hs
        cases hs
        exact FifoSource.inOrder_start
      | some s₀ =>
        rw [hold] at hs
        obtain rfl := Option.some.inj hs
        exact hl.streams p _ hold
    · cases hs
  bounded limit hbound p := by
    rw [hlimit] at hbound
    have hle := hl.bounded limit hbound p
    rw [buffered, h.sources]
    split
    · cases hold : l.sources.get? p with
      | none => exact Nat.zero_le _
      | some s => rwa [buffered_of_get? hold] at hle
    · exact Nat.zero_le _

theorem kept_init (hl : l.Kept) (hnew : l.initialized = false) (hn : ms.Nodup) :
    (l.after (.init ms)).Kept := by
  have hmoves : l.Moves ms (l.after (.init ms)) := moves_init hl.tidy hnew hn
  have hafter := after_init hnew hn
  apply hmoves.kept hl hn
  · rw [hafter]
  · rw [hafter, Table.keys_const]
  · rw [hafter, Table.keys_const]

/-- A call that brings a member list is refused if the list repeats a member. -/
theorem nodup_of_list (hc : c = .init ms ∨ c = .view ms) (h : l.call c = .ok (o, l')) :
    ms.Nodup ∧ (l.initialized = false ∨ c = .view ms) := by
  have hinit : l.init ms = .ok (o, l') → ms.Nodup ∧ l.initialized = false := by
    intro h
    unfold FifoLayer.init at h
    split at h
    · cases h
    · rename_i hnew
      split at h
      · cases h
      · rename_i hnone
        exact ⟨Proc.firstRepeated?_eq_none.mp hnone, by simpa using hnew⟩
  rcases hc with rfl | rfl
  · obtain ⟨hn, hnew⟩ := hinit h
    exact ⟨hn, .inl hnew⟩
  · refine ⟨?_, .inr rfl⟩
    change l.applyView ms = .ok (o, l') at h
    unfold applyView at h
    split at h
    · exact (hinit h).1
    · split at h
      · cases h
      · rename_i hnone
        exact Proc.firstRepeated?_eq_none.mp hnone

theorem kept_view (hl : l.Kept) (hn : ms.Nodup) : (l.after (.view ms)).Kept := by
  by_cases hready : l.initialized = true
  · have hmoves : l.Moves ms (l.after (.view ms)) := moves_view hl.tidy hn
    have hafter : l.after (.view ms) = { l with
        members := ms
        sent := ms.foldl (fun t p => t.putNew p 0)
          (l.sent.filter fun e => e.1 ∈ ms || e.1 ∉ l.members)
        sources := ms.foldl (fun t p => t.putNew p {})
          (l.sources.filter fun e => e.1 ∈ ms || e.1 ∉ l.members) } := by
      simp only [after, call, applyView, hready, Proc.firstRepeated?_eq_none.mpr hn,
        Bool.not_true, Bool.false_eq_true, if_false]
    apply hmoves.kept hl hn
    · rw [hafter]
    · rw [hafter]
      exact keys_moved hl.members hl.sent hn
    · rw [hafter]
      exact keys_moved hl.members hl.sources hn
  · have hnew : l.initialized = false := by simpa using hready
    have hinit : l.after (.view ms) = l.after (.init ms) := by
      simp only [after, call, applyView, hnew, Bool.not_false, if_true]
    rw [hinit]
    exact kept_init hl hnew hn

/-! ### Traffic -/

theorem kept_send {payload : Bytes} {destinations : List Proc} (hl : l.Kept)
    (h : l.send payload destinations = .ok (o, l')) : l'.Kept := by
  have hs := sends h
  refine ⟨?_, ?_, ?_, ?_, ?_, ?_⟩
  · rw [hs.initialized, hs.members]
    exact hl.unused
  · rw [hs.members]
    exact hl.members
  · have hkeys : l'.sent.keys = l.sent.keys := by
      rw [hs.sent, Table.keys, List.map_map]
      rfl
    rw [hkeys, hs.members]
    exact hl.sent
  · rw [hs.sources, hs.members]
    exact hl.sources
  · rw [hs.sources]
    exact hl.streams
  · intro limit hbound p
    rw [hs.limit] at hbound
    rw [buffered, hs.sources]
    exact hl.bounded limit hbound p

/-- A packet is kept for its turn only if there is room for it. -/
theorem room_of_keep (hlimit : l.limit = some limit) (hs : l.sources.get? p = some s)
    (hearly : s.expected < packet.sequence) (hfresh : s.holds packet.sequence = false)
    (h : l.deliver p packet = .ok (o, l')) : s.buffer.length < limit := by
  by_contra hfull
  have hready := initialized_of_deliver h
  have hnew : ¬ packet.sequence < s.expected := by omega
  have hreached : (some limit).filter (fun n => n ≤ s.buffer.length) = some limit := by
    simp [Option.filter, Nat.le_of_not_lt hfull]
  simp [FifoLayer.deliver, hready, hs, hnew, hfresh, hearly, hlimit, hreached] at h

/-- The stream from one source goes on. -/
theorem Kept.put (hl : l.Kept) (hs : l.sources.get? p = some s) (hs' : s'.InOrder)
    (hroom : ∀ limit, l.limit = some limit → s'.buffer.length ≤ limit) {stats : FifoStats} :
    Kept { l with sources := l.sources.put p s', stats } := by
  have hp : p ∈ l.sources.keys := by
    by_contra hnone
    rw [Table.get?_eq_none.mpr hnone] at hs
    cases hs
  refine ⟨hl.unused, hl.members, hl.sent, ?_, ?_, ?_⟩
  · rw [Table.keys_put hp]
    exact hl.sources
  · intro q t ht
    rw [Table.get?_put] at ht
    split at ht
    · cases ht
      exact hs'
    · exact hl.streams q t ht
  · intro limit hbound q
    rw [buffered, Table.get?_put]
    split
    · exact hroom limit hbound
    · exact hl.bounded limit hbound q

theorem kept_deliver (hl : l.Kept) (h : l.deliver p packet = .ok (o, l')) : l'.Kept := by
  cases hs : l.sources.get? p with
  | none => exact (deliver_unknown hs h).elim
  | some s =>
    have hstream := hl.streams p s hs
    have hr : l.Receipt p s packet (l.deliver p packet) := receipt (initialized_of_deliver h) hs
    have hroom : s.expected < packet.sequence → s.holds packet.sequence = false →
        ∀ limit, l.limit = some limit → s.buffer.length < limit :=
      fun hearly hfresh limit hlimit => room_of_keep hlimit hs hearly hfresh h
    rw [h] at hr
    cases hr with
    | again => exact ⟨hl.unused, hl.members, hl.sent, hl.sources, hl.streams, hl.bounded⟩
    | early hearly hfresh =>
      apply hl.put hs (hstream.keep hearly)
      intro limit hlimit
      have hlength : (s.keep packet).buffer.length ≤ s.buffer.length + 1 :=
        length_insertAscending_le
      have hlt := hroom hearly hfresh limit hlimit
      omega
    | next turn drain =>
      obtain ⟨horder, -, hlength⟩ := hstream.drain drain
      apply hl.put hs horder
      intro limit hlimit
      have hle := hl.bounded limit hlimit p
      rw [buffered_of_get? hs] at hle
      omega

/-- The packet that is expected is delivered at once, however full the buffer is. -/
theorem Kept.accepts (hl : l.Kept) (hs : l.sources.get? p = some s)
    (hturn : packet.sequence = s.expected) : ∃ o l' s', l.deliver p packet = .ok (o, l') ∧
      o.delivered.head? = some ⟨p, packet.payload⟩ ∧
      l'.sources.get? p = some s' ∧ s.expected < s'.expected := by
  have hstream := hl.streams p s hs
  have hr : l.Receipt p s packet (l.deliver p packet) := receipt (hl.ready hs) hs
  generalize l.deliver p packet = result at hr ⊢
  cases hr with
  | again known =>
    rcases known with hlt | hheld
    · omega
    · obtain ⟨payload, hmem⟩ := FifoSource.holds_iff.mp hheld
      have hlater := hstream.later _ hmem
      dsimp only at hlater
      omega
  | full hearly | early hearly => omega
  | @next payloads s' stats turn drain =>
    obtain ⟨-, hforward, -⟩ := hstream.drain drain
    refine ⟨_, _, s', rfl, rfl, ?_, hforward⟩
    rw [Table.get?_put, if_pos rfl]

/-! ### Runs -/

theorem Kept.after (hl : l.Kept) : (l.after c).Kept := by
  cases h : l.call c with
  | error e => rwa [(after_of_error h).1]
  | ok result =>
    obtain ⟨o, l'⟩ := result
    cases c with
    | init ms =>
      obtain ⟨hn, hnew | hview⟩ := nodup_of_list (.inl rfl) h
      · exact kept_init hl hnew hn
      · cases hview
    | view ms => exact kept_view hl (nodup_of_list (.inr rfl) h).1
    | send payload destinations =>
      rw [(after_of_ok h).1]
      exact kept_send hl h
    | deliver source packet =>
      rw [(after_of_ok h).1]
      exact kept_deliver hl h

theorem kept_run (hl : l.Kept) : (l.run calls).Kept := by
  induction calls generalizing l with
  | nil => exact hl
  | cons c calls ih => exact ih hl.after

/-- A member list without repetition is taken up. -/
theorem applyView_ok (hn : ms.Nodup) :
    ∃ o, l.applyView ms = .ok (o, l.after (.view ms)) := by
  have hnone := Proc.firstRepeated?_eq_none.mpr hn
  cases hready : l.initialized <;>
    simp only [FifoLayer.after, call, applyView, FifoLayer.init, hready, hnone, Bool.not_true,
      Bool.not_false, Bool.false_eq_true, if_true, if_false] <;>
    exact ⟨_, rfl⟩

/-- After any calls the books agree with the member list. The packet that is expected is always
accepted. A new list leaves the streams of those who stay as they are, and starts those of the
others at zero. -/
theorem books_kept (here : Proc) (limit : Option Nat) (calls : List FifoCall) :
    let l := (fresh here limit).run calls
    l.Kept ∧
    (∀ p s packet, l.sources.get? p = some s → packet.sequence = s.expected →
      ∃ o l' s', l.deliver p packet = .ok (o, l') ∧
        o.delivered.head? = some ⟨p, packet.payload⟩ ∧
        l'.sources.get? p = some s' ∧ s.expected < s'.expected) ∧
    ∀ ms, ms.Nodup → ∃ o l', l.applyView ms = .ok (o, l') ∧ l'.members = ms ∧ ∀ p ∈ ms,
      (p ∈ l.members → l'.sent.get? p = l.sent.get? p ∧ l'.sources.get? p = l.sources.get? p) ∧
      (p ∉ l.members → l'.sent.get? p = some 0 ∧ l'.sources.get? p = some ⟨0, []⟩) := by
  intro l
  have hl : l.Kept := kept_run kept_fresh
  refine ⟨hl, fun p s packet hs hturn => hl.accepts hs hturn, ?_⟩
  intro ms hn
  obtain ⟨o, ho⟩ := applyView_ok (l := l) hn
  have hmoves : l.Moves ms (l.after (.view ms)) := moves_view hl.tidy hn
  refine ⟨o, _, ho, hmoves.members, ?_⟩
  intro p hp
  rw [hmoves.sent, hmoves.sources, if_pos hp, if_pos hp]
  constructor
  · intro hin
    have hsent := hl.sent.mem_iff.mpr hin
    have hsources := hl.sources.mem_iff.mpr hin
    constructor
    · cases hnumber : l.sent.get? p with
      | none => exact (Table.get?_eq_none.mp hnumber hsent).elim
      | some n => rfl
    · cases hsource : l.sources.get? p with
      | none => exact (Table.get?_eq_none.mp hsource hsources).elim
      | some s => rfl
  · intro hout
    rw [hl.tidy.sent p hout, hl.tidy.sources p hout]
    exact ⟨rfl, rfl⟩

end FifoLayer

end Multicast
