import Multicast.View

/-! The membership layer: it turns agreed operations into a sequence of views. -/
namespace Multicast

/-- A change of membership that all members apply in the same order. -/
inductive MembershipOp where
  | add (p : Proc)
  | remove (p : Proc)
  deriving DecidableEq, Repr

namespace MembershipOp

def process : MembershipOp → Proc
  | .add p | .remove p => p

def text : MembershipOp → String
  | .add p => "add " ++ p.text
  | .remove p => "remove " ++ p.text

end MembershipOp

inductive MembershipError where
  | duplicateMember (p : Proc)
  | alreadyInitialized
  deriving DecidableEq, Repr

namespace MembershipError

def message : MembershipError → String
  | .duplicateMember p => "duplicate member in view: " ++ p.text
  | .alreadyInitialized => "membership layer is already initialized"

end MembershipError

/-- What the transport has to do about members. -/
inductive MembershipDirective where
  /-- All members, when the first view is adopted. -/
  | joinList (members : List Proc)
  | added (p : Proc)
  | removed (p : Proc)
  deriving DecidableEq, Repr

/-- What one operation of the layer asks for, each list in the order to carry it out. -/
structure MembershipOutput where
  /-- Changes to be agreed on. -/
  abcast : List MembershipOp := []
  /-- State to send, with its destination. -/
  transfers : List (Proc × StateTransfer) := []
  directives : List MembershipDirective := []
  newViews : List View := []
  deriving DecidableEq, Repr

namespace MembershipOutput

def isEmpty (o : MembershipOutput) : Bool :=
  o.abcast.isEmpty && o.transfers.isEmpty && o.directives.isEmpty && o.newViews.isEmpty

/-- The first output, then the second. -/
def append (o p : MembershipOutput) : MembershipOutput where
  abcast := o.abcast ++ p.abcast
  transfers := o.transfers ++ p.transfers
  directives := o.directives ++ p.directives
  newViews := o.newViews ++ p.newViews

instance : Append MembershipOutput := ⟨append⟩

end MembershipOutput

structure MembershipLayer where
  /-- The local process. -/
  here : Proc
  view : Option View := none
  /-- Agreed operations that came before the first view, oldest first. -/
  waiting : List MembershipOp := []
  deriving DecidableEq, Repr

namespace MembershipLayer

/-- Takes up a first view. -/
def adopt (l : MembershipLayer) (v : View) :
    Except MembershipError (MembershipOutput × MembershipLayer) :=
  match Proc.firstRepeated? v.members with
  | some p => .error (.duplicateMember p)
  | none =>
    .ok ({ directives := [.joinList v.members], newViews := [v] }, { l with view := some v })

/-- Takes up `members` as view zero. An empty list leaves the layer waiting for a state
transfer. -/
def init (l : MembershipLayer) (members : List Proc) :
    Except MembershipError (MembershipOutput × MembershipLayer) :=
  if l.view.isSome then .error .alreadyInitialized
  else if members = [] then .ok ({}, l)
  else l.adopt ⟨0, members⟩

/-- Asks for `p` to be added. -/
def join (_ : MembershipLayer) (p : Proc) : MembershipOutput := { abcast := [.add p] }

/-- Asks for `p` to be removed. -/
def remove (_ : MembershipLayer) (p : Proc) : MembershipOutput := { abcast := [.remove p] }

/-- The view after an operation, if it changes the members. -/
def change? (v : View) : MembershipOp → Option View
  | .add p => if p ∈ v.members then none else some ⟨v.id + 1, v.members ++ [p]⟩
  | .remove p => if p ∈ v.members then some ⟨v.id + 1, v.members.erase p⟩ else none

/-- What announces the change from `v` to `next`. The sponsor of a joiner sends it the view that it
joins. -/
def announce (l : MembershipLayer) (v next : View) : MembershipOp → MembershipOutput
  | .add p => {
      transfers := if v.sponsor? = some l.here then [(p, ⟨next.id, next.members, [p]⟩)] else []
      directives := [.added p]
      newViews := [next] }
  | .remove p => { directives := [.removed p], newViews := [next] }

/-- Applies an agreed operation to view `v`. -/
def apply (l : MembershipLayer) (v : View) (op : MembershipOp) :
    MembershipOutput × MembershipLayer :=
  match change? v op with
  | none => ({}, l)
  | some next => (l.announce v next op, { l with view := some next })

/-- Applies an agreed operation, or keeps it until there is a view. -/
def adeliver (l : MembershipLayer) (op : MembershipOp) : MembershipOutput × MembershipLayer :=
  match l.view with
  | none => ({}, { l with waiting := l.waiting ++ [op] })
  | some v => l.apply v op

/-- Applies agreed operations in order. -/
def adeliverAll (l : MembershipLayer) : List MembershipOp → MembershipOutput × MembershipLayer
  | [] => ({}, l)
  | op :: ops =>
    let (o, l) := l.adeliver op
    let (o', l) := l.adeliverAll ops
    (o ++ o', l)

/-- How many waiting operations a transfer covers: those up to the last that added one of the
processes it introduces, each where it first waits. -/
def covered (added : List Proc) (waiting : List MembershipOp) : Nat :=
  ((added.filterMap fun p => waiting.idxOf? (.add p)).map (· + 1)).foldl max 0

/-- Takes up the transferred view, passes the transfer on to the others it introduces, and applies
the waiting operations that it does not cover. Ignored once there is a view. -/
def deliverState (l : MembershipLayer) (t : StateTransfer) :
    Except MembershipError (MembershipOutput × MembershipLayer) :=
  if l.view.isSome then .ok ({}, l)
  else
    match l.adopt ⟨t.viewId, t.members⟩ with
    | .error e => .error e
    | .ok (o, l) =>
      let passed : MembershipOutput :=
        { transfers := (t.added.filter (· ≠ l.here)).map fun p => (p, t) }
      let (o', l') := { l with waiting := [] }.adeliverAll
        (l.waiting.drop (covered t.added l.waiting))
      .ok (o ++ passed ++ o', l')

end MembershipLayer

end Multicast
