import Multicast.Proofs.Fifo.Bookkeeping
import Multicast.Proofs.InPlace.Basic

/-! The operations of a FIFO layer on its own books: one entry of a table at a time, and an error
wherever one is found. -/
namespace Multicast.FifoLayer

variable {l : FifoLayer} {ms ps : List Proc} {p : Proc} {payload : Bytes}

/-- Goes on only with a layer that has a member list. -/
def ensureInitialized : EStateM OrderError FifoLayer Unit := do
  if (← get).initialized then pure () else throw .notInitialized

/-- Changes both books at the entry of a process. -/
def inBooks (f : Table Proc Nat → Proc → Table Proc Nat)
    (g : Table Proc FifoSource → Proc → Table Proc FifoSource) (l : FifoLayer) (p : Proc) :
    FifoLayer :=
  { l with sent := f l.sent p, sources := g l.sources p }

/-- Opens the books on a member, in both directions. -/
def seed : FifoLayer → Proc → FifoLayer := inBooks (fun t p => t.put p 0) fun t p => t.put p {}

/-- Closes the books on a departed member. -/
def strike : FifoLayer → Proc → FifoLayer := inBooks Table.erase Table.erase

/-- Opens the books on a member unless they are open. -/
def enter : FifoLayer → Proc → FifoLayer :=
  inBooks (fun t p => t.putNew p 0) fun t p => t.putNew p {}

/-- Uses up number `n` to a destination. -/
def stamp (l : FifoLayer) (p : Proc) (n : Nat) : FifoLayer :=
  { l with sent := l.sent.put p (n + 1), stats := { l.stats with sent := l.stats.sent + 1 } }

/-- Announces the member list that the layer now has. -/
def announceMembers : EStateM OrderError FifoLayer FifoOutput := do
  return { directives := [(← get).members] }

def initInPlace (members : List Proc) : EStateM OrderError FifoLayer FifoOutput := do
  if (← get).initialized then throw .alreadyInitialized
  else
    match Proc.firstRepeated? members with
    | some p => throw (.duplicateMember p)
    | none =>
      forM members fun p => modify (seed · p)
      modify fun l => { l with members }
      modify fun l => { l with initialized := true }
      announceMembers

/-- Numbers a payload for one destination after another. A destination without a number is left
out. -/
def stampAll (payload : Bytes) : List Proc → EStateM OrderError FifoLayer FifoOutput
  | [] => pure {}
  | p :: ps => do
    match (← get).sent.get? p with
    | none => stampAll payload ps
    | some n =>
      modify (·.stamp p n)
      let o ← stampAll payload ps
      return { sends := [⟨p, n, payload⟩] } ++ o

def sendInPlace (payload : Bytes) (destinations : List Proc) :
    EStateM OrderError FifoLayer FifoOutput := do
  ensureInitialized
  if destinations = [] then throw .noDestinations
  else
    let l ← get
    match (Proc.firsts destinations).find? (!l.sent.has ·) with
    | some p => throw (.unknownProcess p)
    | none => stampAll payload (Proc.firsts destinations)

def deliverInPlace (source : Proc) (packet : FifoPacket) :
    EStateM OrderError FifoLayer FifoOutput := do
  ensureInitialized
  match (← get).sources.get? source with
  | none => throw (.unknownProcess source)
  | some s =>
    if packet.sequence < s.expected || s.holds packet.sequence then
      modify fun l => { l with stats := { l.stats with duplicates := l.stats.duplicates + 1 } }
      return {}
    else if s.expected < packet.sequence then
      match (← get).limit.filter (· ≤ s.buffer.length) with
      | some limit => throw (.reorderBufferFull source limit)
      | none =>
        modify fun l => { l with sources := l.sources.put source (s.keep packet) }
        modify fun l => { l with stats := { l.stats with reordered := l.stats.reordered + 1 } }
        return {}
    else
      let (waiting, s') := FifoSource.drain (s.expected + 1) s.buffer
      let delivered := (packet.payload :: waiting).map fun bs => (⟨source, bs⟩ : Delivery)
      modify fun l => { l with sources := l.sources.put source s' }
      modify fun l => { l with
        stats := { l.stats with delivered := l.stats.delivered + delivered.length } }
      return { delivered }

def viewInPlace (members : List Proc) : EStateM OrderError FifoLayer FifoOutput := do
  let l ← get
  if !l.initialized then initInPlace members
  else
    match Proc.firstRepeated? members with
    | some p => throw (.duplicateMember p)
    | none =>
      forM (l.members.filter (· ∉ members)) fun p => modify (strike · p)
      forM members fun p => modify (enter · p)
      modify fun l => { l with members }
      announceMembers

/-- A call, as the layer carries it out on itself. -/
def perform : FifoCall → EStateM OrderError FifoLayer FifoOutput
  | .init members => initInPlace members
  | .send payload destinations => sendInPlace payload destinations
  | .deliver source packet => deliverInPlace source packet
  | .view members => viewInPlace members

/-! ### The books one entry at a time -/

/-- The two books are changed apart from each other. -/
theorem foldl_inBooks {f : Table Proc Nat → Proc → Table Proc Nat}
    {g : Table Proc FifoSource → Proc → Table Proc FifoSource} :
    ps.foldl (inBooks f g) l =
      { l with sent := ps.foldl f l.sent, sources := ps.foldl g l.sources } := by
  induction ps generalizing l with
  | nil => rfl
  | cons p ps ih => exact ih

theorem Kept.empty_of_unused (hl : l.Kept) (hnew : l.initialized = false) :
    l.sent = [] ∧ l.sources = [] := by
  have hnone : l.members = [] := hl.unused hnew
  have hsent := hl.sent
  have hsources := hl.sources
  rw [hnone] at hsent hsources
  exact ⟨List.map_eq_nil_iff.mp hsent.eq_nil, List.map_eq_nil_iff.mp hsources.eq_nil⟩

/-- The numbers after a payload has been numbered for `p`, and then for others. -/
theorem map_put_stamped {t : Table Proc Nat} {n : Nat} (ht : t.keys.Nodup) (hn : t.get? p = some n)
    (hp : p ∉ ps) :
    ((t.put p (n + 1)).map fun e => if e.1 ∈ ps then (e.1, e.2 + 1) else e) =
      t.map fun e => if e.1 ∈ p :: ps then (e.1, e.2 + 1) else e := by
  have hmem : p ∈ t.keys := by
    by_contra hout
    rw [Table.get?_eq_none.mpr hout] at hn
    cases hn
  rw [Table.put_eq_map ht hmem, List.map_map]
  refine List.map_congr_left fun e he => ?_
  by_cases hep : e.1 = p
  · have hold : t.get? e.1 = some e.2 := (Table.mem_iff_get? ht).mp he
    have hval : n = e.2 := by
      rw [hep, hn] at hold
      exact Option.some.inj hold
    simp [hep, hp, hval]
  · simp [hep]

theorem run_stampAll (hl : l.sent.keys.Nodup) (hn : ps.Nodup) (hps : ∀ p ∈ ps, p ∈ l.sent.keys) :
    (stampAll payload ps).run l =
      .ok { sends := ps.map fun p => ⟨p, (l.sent.get? p).getD 0, payload⟩ }
        { l with
          sent := l.sent.map fun e => if e.1 ∈ ps then (e.1, e.2 + 1) else e
          stats := { l.stats with sent := l.stats.sent + ps.length } } := by
  induction ps generalizing l with
  | nil => simp [stampAll]
  | cons p ps ih =>
    obtain ⟨hp, hps'⟩ := List.nodup_cons.mp hn
    have hmem : p ∈ l.sent.keys := hps p List.mem_cons_self
    obtain ⟨n, hnum⟩ := Table.has_iff.mp (Table.has_iff_mem_keys.mpr hmem)
    have hkeys : (l.stamp p n).sent.keys = l.sent.keys := Table.keys_put hmem
    have hrest := ih (l := l.stamp p n) (hkeys ▸ hl) hps' fun q hq =>
      hkeys ▸ hps q (List.mem_cons_of_mem _ hq)
    have hothers : ∀ q ∈ ps, (l.stamp p n).sent.get? q = l.sent.get? q := by
      intro q hq
      have hne : q ≠ p := fun he => hp (he ▸ hq)
      rw [stamp, Table.get?_put, if_neg hne]
    have hsends : ps.map (fun q => (⟨q, ((l.stamp p n).sent.get? q).getD 0, payload⟩ :
        Outgoing FifoPacket)) = ps.map fun q => ⟨q, (l.sent.get? q).getD 0, payload⟩ :=
      List.map_congr_left fun q hq => by rw [hothers q hq]
    rw [hsends] at hrest
    have hsent := map_put_stamped hl hnum hp
    simp only [stampAll, EStateM.run_bind, EStateM.run_get, hnum, EStateM.run_modify, hrest,
      EStateM.run_pure, List.map_cons, List.length_cons, Option.getD_some]
    simp only [stamp, hsent, Nat.add_assoc, Nat.add_comm 1]
    rfl

theorem run_initInPlace (hl : l.Kept) :
    (initInPlace ms).run l = InPlace.outcome l (l.init ms) := by
  simp only [initInPlace, init, EStateM.run_bind, EStateM.run_get]
  cases hinit : l.initialized with
  | true => rfl
  | false =>
    cases hdup : Proc.firstRepeated? ms with
    | some p => rfl
    | none =>
      have hn : ms.Nodup := Proc.firstRepeated?_eq_none.mp hdup
      obtain ⟨hsent, hsources⟩ := hl.empty_of_unused hinit
      have hput {β : Type} (v : β) :
          ms.foldl (fun t p => Table.put t p v) [] = ms.map fun p => (p, v) :=
        Table.foldl_put_new hn fun _ _ => List.not_mem_nil
      simp only [EStateM.run_bind, InPlace.run_forM_modify, seed, foldl_inBooks,
        EStateM.run_modify, hsent, hsources, hput, Bool.false_eq_true, if_false]
      rfl

/-- What the layer asks first comes to the same in place. -/
theorem run_ensureInitialized {act : EStateM OrderError FifoLayer FifoOutput}
    {r : Except OrderError (FifoOutput × FifoLayer)}
    (h : l.initialized = true → act.run l = InPlace.outcome l r) :
    (do ensureInitialized; act).run l =
      InPlace.outcome l (if !l.initialized then .error .notInitialized else r) := by
  simp only [ensureInitialized, EStateM.run_bind, EStateM.run_get]
  cases hready : l.initialized with
  | true => exact h hready
  | false => rfl

theorem run_sendInPlace (hl : l.Kept) {ds : List Proc} :
    (sendInPlace payload ds).run l = InPlace.outcome l (l.send payload ds) := by
  refine run_ensureInitialized fun _ => ?_
  by_cases hds : ds = []
  · simp only [if_pos hds]
    rfl
  · simp only [if_neg hds, EStateM.run_bind, EStateM.run_get]
    cases hknown : (Proc.firsts ds).find? (!l.sent.has ·) with
    | some p => rfl
    | none =>
      have hhas : ∀ p ∈ Proc.firsts ds, p ∈ l.sent.keys := fun p hp =>
        Table.has_iff_mem_keys.mp (by simpa using List.find?_eq_none.mp hknown p hp)
      exact run_stampAll (hl.sent.symm.nodup hl.members) Proc.nodup_firsts hhas

theorem run_deliverInPlace {packet : FifoPacket} :
    (deliverInPlace p packet).run l = InPlace.outcome l (l.deliver p packet) := by
  refine run_ensureInitialized fun _ => ?_
  simp only [EStateM.run_bind, EStateM.run_get]
  cases hs : l.sources.get? p with
  | none => rfl
  | some s =>
    by_cases hold : packet.sequence < s.expected || s.holds packet.sequence
    · simp only [if_pos hold]
      rfl
    · by_cases hearly : s.expected < packet.sequence
      · simp only [if_neg hold, if_pos hearly, EStateM.run_bind, EStateM.run_get]
        cases l.limit.filter (· ≤ s.buffer.length) <;> rfl
      · simp only [if_neg hold, if_neg hearly, EStateM.run_bind, EStateM.run_modify,
          EStateM.run_pure, List.length_map, List.length_cons, Nat.add_assoc, Nat.add_comm 1]
        rfl

theorem run_viewInPlace (hl : l.Kept) :
    (viewInPlace ms).run l = InPlace.outcome l (l.applyView ms) := by
  simp only [viewInPlace, applyView, EStateM.run_bind, EStateM.run_get]
  cases hready : l.initialized with
  | false => exact run_initInPlace hl
  | true =>
    cases hdup : Proc.firstRepeated? ms with
    | some p => rfl
    | none =>
      have hstays (p : Proc) :
          decide (p ∉ l.members.filter (· ∉ ms)) = (decide (p ∈ ms) || decide (p ∉ l.members)) := by
        by_cases hp : p ∈ ms <;> simp [hp]
      simp only [Bool.not_true, Bool.false_eq_true, if_false, EStateM.run_bind,
        InPlace.run_forM_modify, strike, enter, foldl_inBooks, Table.foldl_erase,
        EStateM.run_modify, hstays, hready]
      rfl

/-- What a layer does to itself is what its operations say, and nothing if they refuse. -/
theorem run_perform (hl : l.Kept) (c : FifoCall) :
    (perform c).run l = InPlace.outcome l (l.call c) := by
  cases c with
  | init ms => exact run_initInPlace hl
  | send payload ds => exact run_sendInPlace hl
  | deliver p packet => exact run_deliverInPlace
  | view ms => exact run_viewInPlace hl

theorem leaves_call (l : FifoLayer) (c : FifoCall) :
    InPlace.leaves (InPlace.outcome l (l.call c)) = l.after c := by
  unfold after
  cases l.call c <;> rfl

/-- The states that a layer brings itself to are those that its operations give. -/
theorem runAll_perform (hl : l.Kept) (calls : List FifoCall) :
    InPlace.runAll perform l calls = l.run calls :=
  InPlace.runAll_eq (fun _ c hl => run_perform hl c) leaves_call
    (fun _ _ (hl : Kept _) => hl.after) hl calls

end Multicast.FifoLayer
