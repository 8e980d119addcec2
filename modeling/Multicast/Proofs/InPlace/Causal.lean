import Multicast.Proofs.Causal.Members
import Multicast.Proofs.InPlace.Basic

/-! The operations of a causal layer on its own books. What comes after the checks cannot fail, so
only the checks can refuse a call. -/
namespace Multicast.CausalLayer

variable {l : CausalLayer} {ms ps : List Proc} {p : Proc} {payload : Bytes} {ε : Type}

def initInPlace (members : List Proc) : EStateM OrderError CausalLayer CausalOutput := do
  if (← get).initialized then throw .alreadyInitialized
  else
    match Proc.firstRepeated? members with
    | some p => throw (.duplicateMember p)
    | none =>
      modify fun l => { l with members }
      modify fun l => { l with initialized := true }
      return { directives := [(← get).members] }

def sendInPlace (payload : Bytes) (destinations : List Proc) :
    EStateM CausalError CausalLayer CausalOutput := do
  let l ← get
  if !l.initialized then throw (.order .notInitialized)
  else if destinations = [] then throw (.order .noDestinations)
  else
    let destinations := Proc.firsts destinations
    match destinations.find? (· ∉ l.members) with
    | some p => throw (.order (.unknownProcess p))
    | none =>
      let request : CausalRequest := ⟨payload, destinations⟩
      if l.maxOutstanding ≤ l.outstanding then throw (.windowFull l.outstanding request)
      else if l.pending = [] then
        let o ← modifyGet (·.start request)
        let o' ← modifyGet (·.drainQueue)
        return o ++ o'
      else
        modify fun l => { l with queue := l.queue ++ [request] }
        return {}

def deliverInPlace (source : Proc) (packet : CausalPacket) :
    EStateM OrderError CausalLayer CausalOutput := do
  let l ← get
  if !l.initialized then throw .notInitialized
  else if source ∉ l.members then throw (.unknownProcess source)
  else
    match packet with
    | .send id destinations payload => modifyGet (·.onSend source id destinations payload)
    | .ack id => modifyGet (·.onAck source id)

/-- Forgets one departed member after another. -/
def departEach : List Proc → EStateM ε CausalLayer CausalOutput
  | [] => pure {}
  | p :: ps => do
    let o ← modifyGet (·.depart p)
    let o' ← departEach ps
    return o ++ o'

def viewInPlace (members : List Proc) : EStateM OrderError CausalLayer CausalOutput := do
  let l ← get
  if !l.initialized then initInPlace members
  else
    match Proc.firstRepeated? members with
    | some p => throw (.duplicateMember p)
    | none =>
      modify fun l => { l with members }
      let o ← departEach (l.members.filter (· ∉ members))
      let o' ← modifyGet (·.drainQueue)
      return o ++ o' ++ { directives := [(← get).members] }

/-- A call, as the layer carries it out on itself. -/
def perform : CausalCall → EStateM CausalError CausalLayer CausalOutput
  | .init members => EStateM.adaptExcept .order (initInPlace members)
  | .send payload destinations => sendInPlace payload destinations
  | .deliver source packet => EStateM.adaptExcept .order (deliverInPlace source packet)
  | .view members => EStateM.adaptExcept .order (viewInPlace members)

theorem run_departEach :
    (departEach ps : EStateM ε CausalLayer CausalOutput).run l =
      .ok (l.departAll ps).1 (l.departAll ps).2 := by
  induction ps generalizing l with
  | nil => rfl
  | cons p ps ih =>
    simp only [departEach, EStateM.run_bind, EStateM.run_modifyGet, ih, EStateM.run_pure]
    rfl

theorem run_initInPlace : (initInPlace ms).run l = InPlace.outcome l (l.init ms) := by
  simp only [initInPlace, init, EStateM.run_bind, EStateM.run_get]
  cases l.initialized with
  | true => rfl
  | false => cases Proc.firstRepeated? ms <;> rfl

theorem run_sendInPlace {ds : List Proc} :
    (sendInPlace payload ds).run l = InPlace.outcome l (l.send payload ds) := by
  simp only [sendInPlace, send, EStateM.run_bind, EStateM.run_get]
  by_cases hnew : (!l.initialized) = true
  · simp only [if_pos hnew]
    rfl
  by_cases hds : ds = []
  · simp only [if_neg hnew, if_pos hds]
    rfl
  simp only [if_neg hnew, if_neg hds]
  cases (Proc.firsts ds).find? (· ∉ l.members) with
  | some p => rfl
  | none =>
    by_cases hfull : l.maxOutstanding ≤ l.outstanding
    · simp only [if_pos hfull]
      rfl
    by_cases hidle : l.pending = []
    · simp only [if_neg hfull, if_pos hidle]
      rfl
    · simp only [if_neg hfull, if_neg hidle]
      rfl

theorem run_deliverInPlace {packet : CausalPacket} :
    (deliverInPlace p packet).run l = InPlace.outcome l (l.deliver p packet) := by
  simp only [deliverInPlace, deliver, EStateM.run_bind, EStateM.run_get]
  cases l.initialized with
  | false => rfl
  | true =>
    by_cases hknown : p ∉ l.members
    · simp only [if_pos hknown]
      rfl
    · simp only [if_neg hknown]
      cases packet <;> rfl

theorem run_viewInPlace : (viewInPlace ms).run l = InPlace.outcome l (l.applyView ms) := by
  simp only [viewInPlace, applyView, EStateM.run_bind, EStateM.run_get]
  by_cases hnew : (!l.initialized) = true
  · simp only [if_pos hnew]
    exact run_initInPlace
  simp only [if_neg hnew]
  cases Proc.firstRepeated? ms with
  | some p => rfl
  | none =>
    let l₁ := ({ l with members := ms }.departAll (l.members.filter (· ∉ ms))).2
    have hmembers : l₁.drainQueue.2.members = ms :=
      (drains_members drains_drainQueue).trans departAll_members
    simp only [EStateM.run_bind, EStateM.run_modify, run_departEach, EStateM.run_modifyGet,
      EStateM.run_get, EStateM.run_pure]
    rw [hmembers]
    rfl

/-- What a layer does to itself is what its operations say, and nothing if they refuse. -/
theorem run_perform (c : CausalCall) : (perform c).run l = InPlace.outcome l (l.call c) := by
  cases c with
  | init ms => exact InPlace.run_adaptExcept CausalError.order run_initInPlace
  | send payload ds => exact run_sendInPlace
  | deliver p packet => exact InPlace.run_adaptExcept CausalError.order run_deliverInPlace
  | view ms => exact InPlace.run_adaptExcept CausalError.order run_viewInPlace

theorem leaves_call (l : CausalLayer) (c : CausalCall) :
    InPlace.leaves (InPlace.outcome l (l.call c)) = l.after c := by
  unfold after
  cases l.call c <;> rfl

/-- The states that a layer brings itself to are those that its operations give. -/
theorem runAll_perform (calls : List CausalCall) : InPlace.runAll perform l calls = l.run calls :=
  InPlace.runAll_eq (fun _ c (_ : True) => run_perform c) leaves_call (fun _ _ _ => trivial) trivial
    calls

end Multicast.CausalLayer
