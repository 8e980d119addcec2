import Mathlib.Data.List.Induction
import Multicast.Proofs.Delivered.Minimal

/-! The record of delivered messages as it is changed in place: by the places of the runs that a
number is next to. Whatever has been recorded and forgotten, it holds the messages that were
recorded and not forgotten since, in as few runs as can be. -/
namespace Multicast

namespace MessageId

variable {i j : MessageId}

/-- The number after `n`, if 64 bits hold it. -/
def next? (n : Nat) : Option Nat := if n + 1 < UInt64.size then some (n + 1) else none

/-- The relation of two identifiers whose numbers have 64 bits. -/
def checkedRelation (i j : MessageId) : Relation :=
  if i.sender ≠ j.sender then .incomparable
  else if i.sequence = j.sequence then .equal
  else if next? i.sequence = some j.sequence then .predecessor
  else if next? j.sequence = some i.sequence then .successor
  else .incomparable

theorem next?_eq_some {m n : Nat} (h : m < UInt64.size) : next? n = some m ↔ n + 1 = m := by
  unfold next?
  split
  · rw [Option.some_inj]
  · simp only [reduceCtorEq, false_iff]
    omega

theorem checkedRelation_eq (hi : i.sequence < UInt64.size) (hj : j.sequence < UInt64.size) :
    i.checkedRelation j = i.relation j := by
  simp only [checkedRelation, relation, next?_eq_some hi, next?_eq_some hj]

end MessageId

namespace Run

variable {n : Nat} {p : Proc} {r : Run} {rs : List Run}

/-- The place of the first run that does not come before. There is none if others behind it do. -/
def partitionPoint? (before : Run → Bool) (rs : List Run) : Option Nat :=
  let place := rs.findIdx (!before ·)
  if (rs.drop place).all (!before ·) then some place else none

/-- The run ends right before the number. -/
def endsAt (p : Proc) (n : Nat) (r : Run) : Bool :=
  MessageId.checkedRelation ⟨p, r.last⟩ ⟨p, n⟩ = .predecessor

/-- The run begins right after the number. -/
def beginsAt (p : Proc) (n : Nat) (r : Run) : Bool :=
  MessageId.checkedRelation ⟨p, r.first⟩ ⟨p, n⟩ = .successor

/-- Puts a number between runs that do not hold it. It fails where a place is no place of the list,
or where the runs are not in order. -/
def insertInPlace (p : Proc) (n : Nat) (rs : List Run) : Option (List Run) :=
  match rs.findIdx? (endsAt p n), rs.findIdx? (beginsAt p n) with
  | some a, some b => do
    let upper ← rs[b]?
    let rs := rs.eraseIdx b
    let a := if b < a then a - 1 else a
    let lower ← rs[a]?
    return rs.set a { lower with last := upper.last }
  | some a, none => do
    let r ← rs[a]?
    return rs.set a { r with last := n }
  | none, some b => do
    let r ← rs[b]?
    return rs.set b { r with first := n }
  | none, none => do
    let place ← partitionPoint? (·.last < n) rs
    return rs.insertIdx place ⟨n, n⟩

/-- The numbers have 64 bits. -/
def Fit (rs : List Run) : Prop := ∀ r ∈ rs, r.last < UInt64.size

theorem endsAt_iff (hn : n < UInt64.size) (hr : r.last < UInt64.size) :
    endsAt p n r = true ↔ r.last + 1 = n := by
  rw [endsAt, MessageId.checkedRelation_eq hr hn, decide_eq_true_eq]
  simp only [MessageId.relation]
  grind

theorem beginsAt_iff (hn : n < UInt64.size) (hr : r.first < UInt64.size) :
    beginsAt p n r = true ↔ n + 1 = r.first := by
  rw [beginsAt, MessageId.checkedRelation_eq hr hn, decide_eq_true_eq]
  simp only [MessageId.relation]
  grind

/-- A run far below the number is passed over. -/
theorem insertInPlace_cons (hends : endsAt p n r = false) (hbegins : beginsAt p n r = false)
    (hbelow : r.last < n) :
    insertInPlace p n (r :: rs) = (insertInPlace p n rs).map (r :: ·) := by
  have hpoint : partitionPoint? (·.last < n) (r :: rs) =
      (partitionPoint? (·.last < n) rs).map (· + 1) := by
    simp only [partitionPoint?, List.findIdx_cons, hbelow, decide_true, Bool.not_true, cond_false,
      List.drop_succ_cons]
    split <;> rfl
  simp only [insertInPlace, List.findIdx?_cons, hends, hbegins, Bool.false_eq_true, if_false]
  cases rs.findIdx? (endsAt p n) with
  | none =>
    cases rs.findIdx? (beginsAt p n) with
    | none =>
      simp only [Option.map_none, hpoint]
      cases partitionPoint? (·.last < n) rs <;> rfl
    | some b =>
      simp only [Option.map_none, Option.map_some, List.getElem?_cons_succ, List.set_cons_succ]
      cases rs[b]? <;> rfl
  | some a =>
    cases rs.findIdx? (beginsAt p n) with
    | none =>
      simp only [Option.map_none, Option.map_some, List.getElem?_cons_succ, List.set_cons_succ]
      cases rs[a]? <;> rfl
    | some b =>
      have hplace : (if b + 1 < a + 1 then a + 1 - 1 else a + 1) =
          (if b < a then a - 1 else a) + 1 := by
        split <;> split <;> omega
      simp only [Option.map_some, List.getElem?_cons_succ, List.eraseIdx_cons_succ, hplace,
        List.set_cons_succ]
      cases rs[b]? with
      | none => rfl
      | some upper =>
        simp only [Option.bind_eq_bind, Option.bind_some]
        cases (rs.eraseIdx b)[if b < a then a - 1 else a]? <;> rfl

theorem endsAt_eq_false (hn : n < UInt64.size) (hr : r.last < UInt64.size) (h : r.last + 1 ≠ n) :
    endsAt p n r = false := by
  rwa [Bool.eq_false_iff, ne_eq, endsAt_iff hn hr]

theorem beginsAt_eq_false (hn : n < UInt64.size) (hr : r.first < UInt64.size)
    (h : n + 1 ≠ r.first) : beginsAt p n r = false := by
  rwa [Bool.eq_false_iff, ne_eq, beginsAt_iff hn hr]

theorem Spaced.fit_first (hs : Spaced rs) (hf : Fit rs) (hr : r ∈ rs) : r.first < UInt64.size :=
  Nat.lt_of_le_of_lt (hs.1 r hr) (hf r hr)

/-- Runs above a number do not end right before it. -/
theorem findIdx?_endsAt (hn : n < UInt64.size) (hs : Spaced rs) (hf : Fit rs)
    (habove : ∀ r ∈ rs, n < r.first) : rs.findIdx? (endsAt p n) = none := by
  rw [List.findIdx?_eq_none_iff]
  intro r hr
  have := habove r hr
  have := hs.1 r hr
  exact endsAt_eq_false hn (hf r hr) (by omega)

/-- Runs above a number, with one missing between, do not begin right after it. -/
theorem findIdx?_beginsAt (hn : n < UInt64.size) (hs : Spaced rs) (hf : Fit rs)
    (habove : ∀ r ∈ rs, n + 1 < r.first) : rs.findIdx? (beginsAt p n) = none := by
  rw [List.findIdx?_eq_none_iff]
  intro r hr
  exact beginsAt_eq_false hn (hs.fit_first hf hr) (Nat.ne_of_lt (habove r hr))

theorem partitionPoint?_above (hs : Spaced rs) (habove : ∀ r ∈ rs, n < r.first) :
    partitionPoint? (·.last < n) rs = some 0 := by
  have hall : ∀ r ∈ rs, (!decide (r.last < n)) = true := by
    intro r hr
    have := habove r hr
    have := hs.1 r hr
    simp only [Bool.not_eq_true', decide_eq_false_iff_not]
    omega
  have hplace : rs.findIdx (fun r => !decide (r.last < n)) = 0 := by
    cases rs with
    | nil => rfl
    | cons r rs => rw [List.findIdx_cons, hall r List.mem_cons_self, cond_true]
  simp only [partitionPoint?, hplace, List.drop_zero]
  exact if_pos (List.all_eq_true.mpr hall)

/-- The runs behind one that a number does not lie behind are not next to that number. -/
theorem Spaced.above (h : Spaced (r :: rs)) (hn : n ≤ r.last) : ∀ s ∈ rs, n + 1 < s.first := by
  intro s hs
  have := (spaced_cons.mp h).2.1 s hs
  omega

/-- A number right behind the first run: what the others have to do with it is where they begin. -/
theorem findIdx?_behind (hn : n < UInt64.size) (hs : Spaced (r :: rs)) (hf : Fit (r :: rs))
    (h : n = r.last + 1) : (r :: rs).findIdx? (endsAt p n) = some 0 ∧
      (r :: rs).findIdx? (beginsAt p n) = (rs.findIdx? (beginsAt p n)).map (· + 1) := by
  have hr := hs.1 r List.mem_cons_self
  have hends : endsAt p n r = true := (endsAt_iff hn (hf r List.mem_cons_self)).mpr h.symm
  have hbegins : beginsAt p n r = false :=
    beginsAt_eq_false hn (hs.fit_first hf List.mem_cons_self) (by omega)
  rw [List.findIdx?_cons, List.findIdx?_cons, hends, hbegins]
  exact ⟨rfl, rfl⟩

/-- By place, a number that the runs do not hold is put where the recursion over them puts it. -/
theorem insertInPlace_eq (hn : n < UInt64.size) (hs : Spaced rs) (hf : Fit rs)
    (hfresh : ¬ Covers rs n) : insertInPlace p n rs = insert? n rs := by
  -- The number lies before the first run, next to it below, in it, next to it above, or further up.
  -- Only in the last case do the places shift by one.
  fun_induction insert? n rs with
  | case1 => rfl
  | case2 r rs h =>
    have hr := hs.1 r List.mem_cons_self
    have habove : ∀ s ∈ r :: rs, n + 1 < s.first :=
      List.forall_mem_cons.mpr ⟨h, hs.above (by omega)⟩
    have hends := findIdx?_endsAt (p := p) hn hs hf fun s hs' => Nat.lt_of_succ_lt (habove s hs')
    have hbegins := findIdx?_beginsAt (p := p) hn hs hf habove
    have hpoint := partitionPoint?_above hs fun s hs' => Nat.lt_of_succ_lt (habove s hs')
    simp only [insertInPlace, hends, hbegins, hpoint]
    rfl
  | case3 r rs h₁ h =>
    have hr := hs.1 r List.mem_cons_self
    have habove : ∀ s ∈ r :: rs, n < s.first :=
      List.forall_mem_cons.mpr
        ⟨by omega, fun s hs' => Nat.lt_of_succ_lt (hs.above (by omega) s hs')⟩
    have hends := findIdx?_endsAt (p := p) hn hs hf habove
    have hbegins : beginsAt p n r = true :=
      (beginsAt_iff hn (hs.fit_first hf List.mem_cons_self)).mpr h
    simp only [insertInPlace, hends, List.findIdx?_cons, hbegins, if_true]
    rfl
  | case4 r rs h₁ h₂ h =>
    exact (hfresh (covers_cons.mpr (.inl ⟨by omega, h⟩))).elim
  | case5 r h₁ h₂ h₃ h =>
    obtain ⟨hends, hbegins⟩ := findIdx?_behind (p := p) hn hs hf h
    simp only [insertInPlace, hends, hbegins]
    rfl
  | case6 r h₁ h₂ h₃ h s ss hnext =>
    obtain ⟨hends, hbegins⟩ := findIdx?_behind (p := p) hn hs hf h
    have hs' : (s :: ss).findIdx? (beginsAt p n) = some 0 := by
      rw [List.findIdx?_cons, (beginsAt_iff hn
        (hs.fit_first hf (List.mem_cons_of_mem _ List.mem_cons_self))).mpr hnext]
      rfl
    rw [hs'] at hbegins
    simp only [insertInPlace, hends, hbegins]
    rfl
  | case7 r h₁ h₂ h₃ h s ss hnext =>
    obtain ⟨hends, hbegins⟩ := findIdx?_behind (p := p) hn hs hf h
    obtain ⟨-, hgap, hrest⟩ := spaced_cons.mp hs
    have hs' := hrest.1 s List.mem_cons_self
    have hgap' := hgap s List.mem_cons_self
    have habove : ∀ t ∈ s :: ss, n + 1 < t.first :=
      List.forall_mem_cons.mpr ⟨by omega, hrest.above (by omega)⟩
    rw [findIdx?_beginsAt hn hrest (fun t ht => hf t (List.mem_cons_of_mem _ ht)) habove] at hbegins
    simp only [insertInPlace, hends, hbegins]
    rfl
  | case8 r rs h₁ h₂ h₃ h₄ ih =>
    have hends : endsAt p n r = false := endsAt_eq_false hn (hf r List.mem_cons_self) (Ne.symm h₄)
    have hbegins : beginsAt p n r = false :=
      beginsAt_eq_false hn (hs.fit_first hf List.mem_cons_self) h₂
    rw [insertInPlace_cons hends hbegins (Nat.lt_of_not_le h₃),
      ih (spaced_cons.mp hs).2.2 (fun s hs' => hf s (List.mem_cons_of_mem _ hs'))
        fun hc => hfresh (covers_cons.mpr (.inr hc))]

end Run

namespace Delivered

variable {d : Delivered} {i : MessageId} {p : Proc} {n : UInt64}

/-- Records a message in place. Answers whether it is new. -/
def insertInPlace (i : MessageId) : StateT Delivered Option Bool := do
  if (← get).contains i then return false
  else
    modify fun d => ⟨d.runs.putNew i.sender []⟩
    let rs ← Run.insertInPlace i.sender i.sequence ((← get).runsOf i.sender)
    modify fun d => ⟨d.runs.put i.sender rs⟩
    return true

/-- What is done to a record. A message is recorded by its sender and its number. -/
inductive Change where
  | insert (sender : Proc) (number : UInt64)
  | forget (sender : Proc)
  deriving DecidableEq, Repr

def after (d : Delivered) : Change → Delivered
  | .insert p n => d.insert ⟨p, n.toNat⟩
  | .forget p => d.forget p

/-- The record after some changes. -/
def recorded (changes : List Change) : Delivered := changes.foldl after {}

/-- A change, as the record carries it out on itself. -/
def perform : Change → StateT Delivered Option Unit
  | .insert p n => do let _ ← insertInPlace ⟨p, n.toNat⟩
  | .forget p => modify (·.forget p)

/-- The message has been recorded, and its sender has not been forgotten since. -/
def Held (changes : List Change) (i : MessageId) : Prop :=
  ∃ earlier number later, changes = earlier ++ .insert i.sender number :: later ∧
    number.toNat = i.sequence ∧ .forget i.sender ∉ later

theorem run_insertInPlace (hd : d.Valid) (hf : Run.Fit (d.runsOf i.sender))
    (hn : i.sequence < UInt64.size) :
    (insertInPlace i).run d = some (!d.contains i, d.insert i) := by
  cases hc : d.contains i with
  | true => simp [insertInPlace, hc, insert_of_contains hd hc]
  | false =>
    have hfresh : ¬ Run.Covers (d.runsOf i.sender) i.sequence := by
      rw [← contains_iff, hc]
      exact Bool.false_ne_true
    have hruns : (⟨d.runs.putNew i.sender []⟩ : Delivered).runsOf i.sender = d.runsOf i.sender := by
      simp [runsOf, Table.get?_putNew]
    have hplace := Run.insertInPlace_eq (p := i.sender) hn (hd i.sender) hf hfresh
    obtain ⟨rs, hrs⟩ := Option.ne_none_iff_exists'.mp
      (mt (Run.insert?_eq_none (hd i.sender)).mp hfresh)
    have hput : d.insert i = ⟨d.runs.put i.sender rs⟩ := by simp [insert, insert?, hrs]
    simp [insertInPlace, hc, hruns, hplace, hrs, hput, Table.put_putNew]

variable {changes : List Change}

theorem recorded_append_singleton (c : Change) :
    recorded (changes ++ [c]) = (recorded changes).after c :=
  List.foldl_concat ..

theorem not_held_nil : ¬ Held [] i := by
  rintro ⟨earlier, number, later, h, -⟩
  simp at h

/-- A message is held after a last change that records it, and as before after any other that does
not forget its sender. -/
theorem held_append_singleton {c : Change} : Held (changes ++ [c]) i ↔
    (∃ number, c = .insert i.sender number ∧ number.toNat = i.sequence) ∨
      c ≠ .forget i.sender ∧ Held changes i := by
  constructor
  · rintro ⟨earlier, number, later, h, hn, hlater⟩
    rcases List.eq_nil_or_concat later with rfl | ⟨later, c', rfl⟩
    · exact .inl ⟨number, (List.append_inj' h rfl).2 |> List.singleton_inj.mp, hn⟩
    · rw [List.concat_eq_append, ← List.cons_append, ← List.append_assoc] at h
      obtain ⟨rfl, hc⟩ := List.append_inj' h rfl
      rw [List.concat_eq_append, List.mem_append, not_or, ← hc, List.mem_singleton] at hlater
      exact .inr ⟨Ne.symm hlater.2, earlier, number, later, rfl, hn, hlater.1⟩
  · rintro (⟨number, rfl, hn⟩ | ⟨hc, earlier, number, later, rfl, hn, hlater⟩)
    · exact ⟨changes, number, [], rfl, hn, List.not_mem_nil⟩
    · refine ⟨earlier, number, later ++ [c], by simp, hn, ?_⟩
      rw [List.mem_append, List.mem_singleton, not_or]
      exact ⟨hlater, Ne.symm hc⟩

theorem held_append_insert :
    Held (changes ++ [.insert p n]) i ↔ i = ⟨p, n.toNat⟩ ∨ Held changes i := by
  obtain ⟨q, m⟩ := i
  rw [held_append_singleton]
  simp only [Change.insert.injEq, MessageId.mk.injEq, ne_eq, reduceCtorEq, not_false_eq_true,
    true_and]
  grind

theorem held_append_forget :
    Held (changes ++ [.forget p]) i ↔ i.sender ≠ p ∧ Held changes i := by
  simp only [held_append_singleton, reduceCtorEq, false_and, exists_false, false_or, ne_eq,
    Change.forget.injEq, eq_comm]

/-- After any changes the runs are in order, and they hold what has been recorded and not forgotten
since. -/
theorem recorded_holds (changes : List Change) :
    (recorded changes).Valid ∧ ∀ i, (recorded changes).contains i = true ↔ Held changes i := by
  induction changes using List.reverseRecOn with
  | nil =>
    refine ⟨valid_empty, fun i => ?_⟩
    simp only [not_held_nil, iff_false]
    exact Bool.false_ne_true
  | append_singleton changes c ih =>
    obtain ⟨hvalid, hheld⟩ := ih
    rw [recorded_append_singleton]
    cases c with
    | insert p n =>
      refine ⟨valid_insert hvalid, fun i => ?_⟩
      rw [after, contains_insert hvalid, hheld, held_append_insert]
    | forget p =>
      refine ⟨valid_forget hvalid, fun i => ?_⟩
      rw [after, contains_forget, hheld, held_append_forget]

theorem valid_recorded : (recorded changes).Valid := (recorded_holds changes).1

theorem contains_recorded : (recorded changes).contains i = true ↔ Held changes i :=
  (recorded_holds changes).2 i

theorem covers_recorded {n : Nat} :
    Run.Covers ((recorded changes).runsOf p) n ↔ Held changes ⟨p, n⟩ := by
  rw [← contains_recorded, contains_iff]

/-- The last number of a run has been recorded, so it has 64 bits. -/
theorem fit_recorded : Run.Fit ((recorded changes).runsOf p) := by
  intro r hr
  have hlast := (valid_recorded p).1 r hr
  obtain ⟨-, number, -, -, hn, -⟩ :=
    covers_recorded.mp (Run.covers_of_mem hr hlast (Nat.le_refl _))
  exact Nat.lt_of_le_of_lt (Nat.le_of_eq hn.symm) number.toNat_lt

theorem run_insertInPlace_recorded : (insertInPlace ⟨p, n.toNat⟩).run (recorded changes) =
    some (!(recorded changes).contains ⟨p, n.toNat⟩, (recorded changes).insert ⟨p, n.toNat⟩) :=
  run_insertInPlace valid_recorded fit_recorded n.toNat_lt

theorem run_perform (c : Change) :
    (perform c).run (recorded changes) = some ((), (recorded changes).after c) := by
  cases c with
  | insert p n =>
    simp only [perform, StateT.run_bind, run_insertInPlace_recorded]
    rfl
  | forget p => rfl

theorem run_forM_perform (changes : List Change) :
    (changes.forM perform).run {} = some ((), recorded changes) := by
  induction changes using List.reverseRecOn with
  | nil => rfl
  | append_singleton changes c ih =>
    rw [List.forM_eq_forM, List.forM_append, StateT.run_bind, ← List.forM_eq_forM, ih]
    simp [run_perform, recorded_append_singleton]

/-- Whatever is recorded and forgotten, in any order, the record changes itself as it should: the
search for the runs a number is next to never leads out of a list or past one that is not in order.
A message is in the record just if it has been recorded and its sender has not been forgotten since,
and recording it answers whether it was new. Of all lists of runs that hold the numbers of a sender,
the record has the only one in ascending order with a number missing between each two runs, and none
is shorter, or as short without having the same runs. -/
theorem record_exact (changes : List Change) :
    let d := recorded changes
    (changes.forM perform).run {} = some ((), d) ∧
    (∀ i, d.contains i = true ↔ Held changes i) ∧
    (∀ (p : Proc) (n : UInt64), let i : MessageId := ⟨p, n.toNat⟩
      (insertInPlace i).run d = some (!d.contains i, d.insert i) ∧
      d.insert? i = if d.contains i then none else some (d.insert i)) ∧
    (∀ p, Run.Spaced (d.runsOf p)) ∧
    ∀ p rs, (∀ n, Run.Covers rs n ↔ Held changes ⟨p, n⟩) →
      (d.runsOf p).length ≤ rs.length ∧
      (rs.length = (d.runsOf p).length → (d.runsOf p).Perm rs) ∧
      (Run.Spaced rs → d.runsOf p = rs) := by
  intro d
  refine ⟨run_forM_perform changes, fun i => contains_recorded, fun p n => ⟨?_, ?_⟩,
    valid_recorded, fun p rs hrs => ?_⟩
  · exact run_insertInPlace_recorded
  · exact insert?_eq valid_recorded
  · have hagree : Run.Agree (d.runsOf p) rs := fun n => covers_recorded.trans (hrs n).symm
    have hspaced : Run.Spaced (d.runsOf p) := valid_recorded p
    exact ⟨hspaced.length_le hagree, fun h => hspaced.perm hagree (Nat.le_of_eq h),
      fun h => hspaced.ext h hagree⟩

/-- A gap is filled below the last number that 64 bits hold. Cut elsewhere and in another order, the
same numbers take one run more. -/
theorem joined_minimal : let p : Proc := ⟨"a", 1, 0⟩
    let last := UInt64.size - 1
    let changes : List Change := [.insert p 3, .forget p, .insert p (.ofNat last), .insert p 5,
      .insert p 4, .insert p 9, .insert p 7, .insert p 8, .insert p 6, .insert p 6]
    let rs : List Run := [⟨7, 9⟩, ⟨last, last⟩, ⟨4, 6⟩]
    (recorded changes).runsOf p = [⟨4, 9⟩, ⟨last, last⟩] ∧
      (∀ n, Run.Covers rs n ↔ Held changes ⟨p, n⟩) ∧
      ((recorded changes).runsOf p).length ≤ rs.length := by
  intro p last changes rs
  have hruns : (recorded changes).runsOf p = [⟨4, 9⟩, ⟨last, last⟩] := by decide
  have hcovers : ∀ n, Run.Covers rs n ↔ Held changes ⟨p, n⟩ := by
    intro n
    rw [← covers_recorded, hruns]
    simp only [rs, Run.Covers, List.mem_cons, List.not_mem_nil, or_false, exists_eq_or_imp,
      exists_eq_left]
    omega
  exact ⟨hruns, hcovers, ((record_exact changes).2.2.2.2 p rs hcovers).1⟩

end Delivered

end Multicast
