import Multicast.Proofs.Fifo.Source
import Multicast.Proofs.Table

/-! The calls of a FIFO layer, and what each does to the stream to a destination and to the stream
from a source. -/
namespace Multicast

/-- What a process asks of its FIFO layer. -/
inductive FifoCall where
  | init (members : List Proc)
  | send (payload : Bytes) (destinations : List Proc)
  | deliver (source : Proc) (packet : FifoPacket)
  | view (members : List Proc)
  deriving DecidableEq, Repr

namespace FifoCall

/-- The call brings no member list. -/
def isTraffic : FifoCall → Bool
  | init _ | view _ => false
  | send .. | deliver .. => true

/-- The payloads that the call addresses to `p`. -/
def payloadsTo (p : Proc) : FifoCall → List Bytes
  | send payload destinations => if p ∈ destinations then [payload] else []
  | _ => []

/-- The packets that the call brings from `p`. -/
def packetsFrom (p : Proc) : FifoCall → List FifoPacket
  | deliver source packet => if source = p then [packet] else []
  | _ => []

theorem packetsFrom_cases (c : FifoCall) (p : Proc) : c.packetsFrom p = [] ∨
    ∃ packet, c = .deliver p packet ∧ packetsFrom p (.deliver p packet) = [packet] := by
  cases c with
  | init | send | view => exact Or.inl rfl
  | deliver source packet =>
    by_cases h : source = p
    · subst h
      exact Or.inr ⟨packet, rfl, if_pos rfl⟩
    · exact Or.inl (if_neg h)

end FifoCall

/-- The packets that an output has for `p`. -/
def FifoOutput.packetsTo (p : Proc) (o : FifoOutput) : List FifoPacket :=
  (o.sends.filter (·.destination = p)).map (·.packet)

/-- The payloads of `p` that an output delivers. -/
def FifoOutput.deliveredFrom (p : Proc) (o : FifoOutput) : List Bytes :=
  (o.delivered.filter (·.source = p)).map (·.payload)

/-- Payloads as packets, numbered from `base`. -/
def numbered (base : Nat) (payloads : List Bytes) : List FifoPacket :=
  (payloads.zipIdx base).map fun x => ⟨x.2, x.1⟩

theorem mem_numbered {base : Nat} {payloads : List Bytes} {packet : FifoPacket} :
    packet ∈ numbered base payloads ↔ (packet.payload, packet.sequence) ∈ payloads.zipIdx base := by
  rw [numbered, List.mem_map]
  constructor
  · rintro ⟨x, hx, rfl⟩
    exact hx
  · intro hx
    exact ⟨_, hx, rfl⟩

theorem numbered_append {base : Nat} {payloads payloads' : List Bytes} :
    numbered base (payloads ++ payloads') =
      numbered base payloads ++ numbered (base + payloads.length) payloads' := by
  rw [numbered, List.zipIdx_append, List.map_append, numbered, numbered]

namespace FifoLayer

variable {l l' : FifoLayer} {p q : Proc} {c : FifoCall} {o : FifoOutput} {n : Nat}
  {destinations : List Proc} {payload : Bytes} {packet : FifoPacket} {s : FifoSource}
  {r : Except OrderError (FifoOutput × FifoLayer)}

def call (l : FifoLayer) : FifoCall → Except OrderError (FifoOutput × FifoLayer)
  | .init members => l.init members
  | .send payload destinations => l.send payload destinations
  | .deliver source packet => l.deliver source packet
  | .view members => l.applyView members

/-- The layer after a call. A call that is refused changes nothing. -/
def after (l : FifoLayer) (c : FifoCall) : FifoLayer :=
  match l.call c with
  | .ok (_, l) => l
  | .error _ => l

/-- The output of a call, unless it is refused. -/
def answer (l : FifoLayer) (c : FifoCall) : Option FifoOutput :=
  match l.call c with
  | .ok (o, _) => some o
  | .error _ => none

theorem after_of_ok (h : l.call c = .ok (o, l')) : l.after c = l' ∧ l.answer c = some o := by
  simp only [after, answer, h, and_self]

theorem after_of_error {e : OrderError} (h : l.call c = .error e) :
    l.after c = l ∧ l.answer c = none := by
  simp only [after, answer, h, and_self]

/-- The payloads that the layer sends to `p` in a call. -/
def sending (l : FifoLayer) (c : FifoCall) (p : Proc) : List Bytes :=
  (l.answer c).elim [] fun _ => c.payloadsTo p

/-- The first list starts every member at number zero in both directions. -/
theorem after_init {members : List Proc} (hl : l.initialized = false) (hn : members.Nodup) :
    l.after (.init members) = { l with
      initialized := true
      members
      sent := members.map (·, 0)
      sources := members.map (·, {}) } := by
  simp only [after, call, FifoLayer.init, hl, Proc.firstRepeated?_eq_none.mpr hn]
  rfl

/-! ### Receiving -/

/-- What becomes of a packet from a source that the layer knows. -/
inductive Receipt (l : FifoLayer) (p : Proc) (s : FifoSource) (packet : FifoPacket) :
    Except OrderError (FifoOutput × FifoLayer) → Prop
  /-- It came before. -/
  | again {stats : FifoStats}
      (known : packet.sequence < s.expected ∨ s.holds packet.sequence = true) :
      Receipt l p s packet (.ok ({}, { l with stats }))
  /-- It comes early, and there is no room for it. -/
  | full {limit : Nat} (early : s.expected < packet.sequence)
      (fresh : s.holds packet.sequence = false) (bounded : l.limit = some limit) :
      Receipt l p s packet (.error (.reorderBufferFull p limit))
  /-- It comes early and waits for its turn. -/
  | early {stats : FifoStats} (early : s.expected < packet.sequence)
      (fresh : s.holds packet.sequence = false) :
      Receipt l p s packet (.ok ({}, { l with sources := l.sources.put p (s.keep packet), stats }))
  /-- It comes in its turn, with all that waited for it. -/
  | next {payloads : List Bytes} {s' : FifoSource} {stats : FifoStats}
      (turn : packet.sequence = s.expected)
      (drain : FifoSource.drain (s.expected + 1) s.buffer = (payloads, s')) :
      Receipt l p s packet (.ok
        ({ delivered := (packet.payload :: payloads).map fun payload => ⟨p, payload⟩ },
          { l with sources := l.sources.put p s', stats }))

theorem receipt (hl : l.initialized = true) (hs : l.sources.get? p = some s) :
    l.Receipt p s packet (l.deliver p packet) := by
  unfold FifoLayer.deliver
  rw [if_neg (by simp [hl]), hs]
  dsimp only
  split
  · rename_i hknown
    exact .again (by simpa using hknown)
  · rename_i hnew
    simp only [Bool.or_eq_true, decide_eq_true_eq, not_or, Bool.not_eq_true] at hnew
    split
    · rename_i hearly
      split
      · rename_i limit hfull
        exact .full hearly hnew.2 (Option.filter_eq_some_iff.mp hfull).1
      · exact .early hearly hnew.2
    · have hturn : packet.sequence = s.expected := by omega
      exact .next hturn rfl

/-- A packet from a process that is no source is refused. -/
theorem deliver_unknown (hs : l.sources.get? p = none) : l.deliver p packet ≠ .ok (o, l') := by
  intro h
  unfold FifoLayer.deliver at h
  split at h
  · cases h
  · rw [hs] at h
    cases h

theorem initialized_of_deliver (h : l.deliver p packet = .ok (o, l')) : l.initialized = true := by
  unfold FifoLayer.deliver at h
  split at h
  · cases h
  · rename_i hl
    simpa using hl

theorem deliveredFrom_own {payloads : List Bytes} : FifoOutput.deliveredFrom p
    { delivered := payloads.map fun payload => ⟨p, payload⟩ } = payloads := by
  rw [FifoOutput.deliveredFrom, List.filter_eq_self.mpr (by simp), List.map_map]
  exact List.map_id _

/-- What a packet leaves as it was. -/
structure Receives (l : FifoLayer) (p : Proc) (o : FifoOutput) (l' : FifoLayer) : Prop where
  initialized : l'.initialized = l.initialized
  limit : l'.limit = l.limit
  members : l'.members = l.members
  sent : l'.sent = l.sent
  sources : ∀ q, q ≠ p → l'.sources.get? q = l.sources.get? q
  sends : o.sends = []
  delivered : ∀ q, q ≠ p → o.deliveredFrom q = []

theorem receives (h : l.deliver p packet = .ok (o, l')) : l.Receives p o l' := by
  have hl := initialized_of_deliver h
  cases hs : l.sources.get? p with
  | none => exact (deliver_unknown hs h).elim
  | some s =>
    have hput : ∀ (s' : FifoSource) q, q ≠ p → (l.sources.put p s').get? q = l.sources.get? q :=
      fun s' q hq => by rw [Table.get?_put, if_neg hq]
    have hr : l.Receipt p s packet (l.deliver p packet) := receipt hl hs
    rw [h] at hr
    cases hr with
    | again => exact ⟨rfl, rfl, rfl, rfl, fun _ _ => rfl, rfl, fun _ _ => rfl⟩
    | early => exact ⟨rfl, rfl, rfl, rfl, hput _, rfl, fun _ _ => rfl⟩
    | next =>
      refine ⟨rfl, rfl, rfl, rfl, hput _, rfl, fun q hq => ?_⟩
      simp [FifoOutput.deliveredFrom, Ne.symm hq]

/-! ### Sending -/

/-- What a send does, and what it leaves as it was. -/
structure Sends (l : FifoLayer) (payload : Bytes) (destinations : List Proc) (o : FifoOutput)
    (l' : FifoLayer) : Prop where
  known : ∀ p ∈ destinations, ∃ n, l.sent.get? p = some n
  output : o = { sends := (Proc.firsts destinations).map fun p =>
    ⟨p, (l.sent.get? p).getD 0, payload⟩ }
  sent : l'.sent = l.sent.map fun e =>
    (e.1, if e.1 ∈ Proc.firsts destinations then e.2 + 1 else e.2)
  initialized : l'.initialized = l.initialized
  limit : l'.limit = l.limit
  members : l'.members = l.members
  sources : l'.sources = l.sources

theorem sends (h : l.send payload destinations = .ok (o, l')) :
    l.Sends payload destinations o l' := by
  unfold FifoLayer.send at h
  split at h
  · cases h
  split at h
  · cases h
  dsimp only at h
  split at h
  · cases h
  · rename_i hknown
    cases h
    refine ⟨fun p hp => ?_, rfl, ?_, rfl, rfl, rfl, rfl⟩
    · have hhas := List.find?_eq_none.mp hknown p (Proc.mem_firsts.mpr hp)
      exact Table.has_iff.mp (by simpa using hhas)
    · refine List.map_congr_left fun e _ => ?_
      split <;> rfl

/-- A send has one packet for each of its destinations. -/
theorem packetsTo_send {number : Proc → Nat} :
    FifoOutput.packetsTo p { sends := (Proc.firsts destinations).map fun p =>
      ⟨p, number p, payload⟩ } = if p ∈ destinations then [⟨number p, payload⟩] else [] := by
  have hone : (Proc.firsts destinations).filter (· = p) =
      if p ∈ destinations then [p] else [] := by
    have hnodup : (Proc.firsts destinations).Nodup := Proc.nodup_firsts
    rw [List.filter_eq, hnodup.count]
    by_cases h : p ∈ destinations <;> simp [h]
  rw [FifoOutput.packetsTo, List.filter_map, List.map_map]
  have hfilter : (Proc.firsts destinations).filter
      ((·.destination = p) ∘ fun p => (⟨p, number p, payload⟩ : Outgoing FifoPacket)) =
      (Proc.firsts destinations).filter (· = p) := rfl
  rw [hfilter, hone]
  split <;> rfl

/-- The payloads that go to `p` in a call take the next numbers of the stream to `p`. -/
theorem sent_after (hc : c.isTraffic = true) :
    (l.after c).sent.get? p = (l.sent.get? p).map (· + (l.sending c p).length) ∧
      (l.answer c).elim [] (·.packetsTo p) =
        numbered ((l.sent.get? p).getD 0) (l.sending c p) ∧
      (l.sent.get? p = none → l.sending c p = []) := by
  have hsame : l.sent.get? p = (l.sent.get? p).map (· + ([] : List Bytes).length) := by
    cases l.sent.get? p <;> rfl
  cases h : l.call c with
  | error e =>
    obtain ⟨hafter, hanswer⟩ := after_of_error h
    rw [hafter, sending, hanswer]
    exact ⟨hsame, rfl, fun _ => rfl⟩
  | ok result =>
    obtain ⟨o, l'⟩ := result
    obtain ⟨hafter, hanswer⟩ := after_of_ok h
    rw [hafter, sending, hanswer, Option.elim_some, Option.elim_some]
    cases c with
    | init | view => cases hc
    | send payload destinations =>
      have hs := sends h
      have hmap : Table.get? (l.sent.map fun e =>
          (e.1, if e.1 ∈ Proc.firsts destinations then e.2 + 1 else e.2)) p =
          (l.sent.get? p).map fun n => if p ∈ Proc.firsts destinations then n + 1 else n :=
        Table.get?_map fun q n => if q ∈ Proc.firsts destinations then n + 1 else n
      refine ⟨?_, ?_, ?_⟩
      · rw [hs.sent, hmap]
        by_cases hp : p ∈ destinations <;> simp [FifoCall.payloadsTo, hp]
      · rw [hs.output, packetsTo_send, FifoCall.payloadsTo]
        by_cases hp : p ∈ destinations <;> simp [numbered, hp]
      · intro hnone
        refine if_neg fun hp => ?_
        obtain ⟨n, hn⟩ := hs.known p hp
        rw [hnone] at hn
        cases hn
    | deliver source packet =>
      have hr := receives h
      rw [hr.sent, FifoOutput.packetsTo, hr.sends]
      exact ⟨hsame, rfl, fun _ => rfl⟩

/-! ### Traffic -/

/-- Traffic leaves the member list as it is. -/
theorem traffic_after (hc : c.isTraffic = true) : (l.after c).initialized = l.initialized ∧
    (l.after c).limit = l.limit ∧ (l.after c).members = l.members := by
  cases h : l.call c with
  | error e =>
    rw [(after_of_error h).1]
    exact ⟨rfl, rfl, rfl⟩
  | ok result =>
    obtain ⟨o, l'⟩ := result
    rw [(after_of_ok h).1]
    cases c with
    | init | view => cases hc
    | send payload destinations =>
      have hs := sends h
      exact ⟨hs.initialized, hs.limit, hs.members⟩
    | deliver source packet =>
      have hr := receives h
      exact ⟨hr.initialized, hr.limit, hr.members⟩

/-- Only packets of a source concern the stream from it. -/
theorem source_after (hc : c.isTraffic = true) (hp : c.packetsFrom p = []) :
    (l.after c).sources.get? p = l.sources.get? p ∧
      (l.answer c).elim [] (·.deliveredFrom p) = [] := by
  cases h : l.call c with
  | error e =>
    obtain ⟨hafter, hanswer⟩ := after_of_error h
    rw [hafter, hanswer]
    exact ⟨rfl, rfl⟩
  | ok result =>
    obtain ⟨o, l'⟩ := result
    obtain ⟨hafter, hanswer⟩ := after_of_ok h
    rw [hafter, hanswer, Option.elim_some]
    cases c with
    | init | view => cases hc
    | send payload destinations =>
      have hs := sends h
      rw [hs.sources, hs.output]
      exact ⟨rfl, rfl⟩
    | deliver source packet =>
      have hr := receives h
      have hne : p ≠ source := by
        rintro rfl
        simp [FifoCall.packetsFrom] at hp
      exact ⟨hr.sources p hne, hr.delivered p hne⟩

end FifoLayer

end Multicast
