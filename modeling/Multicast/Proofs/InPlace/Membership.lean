import Multicast.Proofs.InPlace.Basic
import Multicast.Proofs.Membership.Waiting

/-! The operations of a membership layer on its own view and its own waiting operations. -/
namespace Multicast.MembershipLayer

variable {l : MembershipLayer} {v : View} {ops : List MembershipOp} {op : MembershipOp}
  {t : StateTransfer} {ms : List Proc} {ε : Type}

def adoptInPlace (v : View) : EStateM MembershipError MembershipLayer MembershipOutput :=
  match Proc.firstRepeated? v.members with
  | some p => throw (.duplicateMember p)
  | none => do
    modify fun l => { l with view := some v }
    return { directives := [.joinList v.members], newViews := [v] }

def initInPlace (members : List Proc) :
    EStateM MembershipError MembershipLayer MembershipOutput := do
  if (← get).view.isSome then throw .alreadyInitialized
  else if members = [] then return {}
  else adoptInPlace ⟨0, members⟩

/-- Takes the waiting operations from the front, one after another, and applies them. -/
def replay : List MembershipOp → EStateM ε MembershipLayer MembershipOutput
  | [] => pure {}
  | op :: ops => do
    modify fun l => { l with waiting := ops }
    let o ← modifyGet (·.adeliver op)
    let o' ← replay ops
    return o ++ o'

def transferInPlace (t : StateTransfer) :
    EStateM MembershipError MembershipLayer MembershipOutput := do
  if (← get).view.isSome then return {}
  else
    let o ← adoptInPlace ⟨t.viewId, t.members⟩
    let here := (← get).here
    let passed : MembershipOutput :=
      { transfers := (t.added.filter (· ≠ here)).map fun p => (p, t) }
    modify fun l => { l with waiting := l.waiting.drop (covered t.added l.waiting) }
    let o' ← replay (← get).waiting
    return o ++ passed ++ o'

/-- A call, as the layer carries it out on itself. -/
def perform : MembershipCall → EStateM MembershipError MembershipLayer MembershipOutput
  | .init members => initInPlace members
  | .adeliver op => modifyGet (·.adeliver op)
  | .join p => return (← get).join p
  | .remove p => return (← get).remove p
  | .transfer t => transferInPlace t

theorem run_adoptInPlace : (adoptInPlace v).run l = InPlace.outcome l (l.adopt v) := by
  unfold adoptInPlace adopt
  cases Proc.firstRepeated? v.members <;> rfl

theorem run_initInPlace : (initInPlace ms).run l = InPlace.outcome l (l.init ms) := by
  simp only [initInPlace, init, EStateM.run_bind, EStateM.run_get]
  by_cases hv : l.view.isSome = true
  · simp only [if_pos hv]
    rfl
  by_cases hms : ms = []
  · simp only [if_neg hv, if_pos hms]
    rfl
  · simp only [if_neg hv, if_neg hms]
    exact run_adoptInPlace

/-- Once there is a view, what waits plays no part in applying an operation. -/
theorem adeliver_waiting (hv : l.view.isSome = true) :
    { l with waiting := ops }.adeliver op =
      ((l.adeliver op).1, { (l.adeliver op).2 with waiting := ops }) := by
  obtain ⟨v, hv⟩ := Option.isSome_iff_exists.mp hv
  simp only [adeliver, hv, apply]
  cases change? v op with
  | none => exact congrArg (fun v => (_, (⟨l.here, v, ops⟩ : MembershipLayer))) hv.symm
  | some next => rfl

theorem run_replay (hv : l.view.isSome = true) :
    (replay ops : EStateM ε MembershipLayer MembershipOutput).run { l with waiting := ops } =
      .ok ({ l with waiting := [] }.adeliverAll ops).1
        ({ l with waiting := [] }.adeliverAll ops).2 := by
  induction ops generalizing l with
  | nil => rfl
  | cons op ops ih =>
    have hrest := ih (l := (l.adeliver op).2) (isSome_adeliver hv)
    have hkept : { l with waiting := ops }.adeliver op = _ := adeliver_waiting hv
    have hbare : { l with waiting := [] }.adeliver op = _ := adeliver_waiting hv
    simp only [replay, adeliverAll, EStateM.run_bind, EStateM.run_modify, EStateM.run_modifyGet,
      EStateM.run_pure, hkept, hbare, hrest]

theorem run_transferInPlace :
    (transferInPlace t).run l = InPlace.outcome l (l.deliverState t) := by
  simp only [transferInPlace, deliverState, EStateM.run_bind, EStateM.run_get]
  by_cases hv : l.view.isSome = true
  · simp only [if_pos hv]
    rfl
  simp only [if_neg hv, EStateM.run_bind, run_adoptInPlace]
  unfold adopt
  cases Proc.firstRepeated? t.members with
  | some p => rfl
  | none =>
    let l₁ : MembershipLayer := { l with view := some ⟨t.viewId, t.members⟩ }
    let ops := l.waiting.drop (covered t.added l.waiting)
    have hrest : (replay ops : EStateM MembershipError _ _).run { l₁ with waiting := ops } = _ :=
      run_replay rfl
    simp only [l₁, ops] at hrest
    simp only [InPlace.outcome_ok, EStateM.run_get, EStateM.run_modify, hrest, EStateM.run_pure]

/-- What a layer does to itself is what its operations say, and nothing if they refuse. -/
theorem run_perform (c : MembershipCall) : (perform c).run l = InPlace.outcome l (l.call c) := by
  cases c with
  | init ms => exact run_initInPlace
  | adeliver | join | remove => rfl
  | transfer t => exact run_transferInPlace

theorem leaves_call (l : MembershipLayer) (c : MembershipCall) :
    InPlace.leaves (InPlace.outcome l (l.call c)) = l.after c := by
  unfold after
  cases l.call c <;> rfl

/-- The states that a layer brings itself to are those that its operations give. -/
theorem runAll_perform (here : Proc) (calls : List MembershipCall) :
    InPlace.runAll perform { here } calls = run here calls :=
  InPlace.runAll_eq (fun _ c (_ : True) => run_perform c) leaves_call (fun _ _ _ => trivial) trivial
    calls

end Multicast.MembershipLayer
