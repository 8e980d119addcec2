import Multicast.Membership
import Multicast.Order.Layer

/-! What a node reports to its application, and the handlers that receive it. -/
namespace Multicast

inductive NodeEvent where
  | fifoDelivered (d : Delivery)
  | causalDelivered (d : Delivery)
  | newView (v : View)
  /-- A change to be agreed on by the group. -/
  | abcast (op : MembershipOp)
  | peerUp (p : Proc)
  | peerDown (p : Proc) (reason : String)
  deriving DecidableEq, Repr

/-- At most one handler for each kind of event. -/
structure Handlers (α : Type) where
  fifoDelivered : Option (Delivery → α) := none
  causalDelivered : Option (Delivery → α) := none
  newView : Option (View → α) := none
  abcast : Option (MembershipOp → α) := none
  peerUp : Option (Proc → α) := none
  peerDown : Option (Proc → String → α) := none

namespace Handlers

variable {α : Type}

/-- One handler for all kinds. -/
def forwardAll (f : NodeEvent → α) : Handlers α where
  fifoDelivered := some fun d => f (.fifoDelivered d)
  causalDelivered := some fun d => f (.causalDelivered d)
  newView := some fun v => f (.newView v)
  abcast := some fun op => f (.abcast op)
  peerUp := some fun p => f (.peerUp p)
  peerDown := some fun p reason => f (.peerDown p reason)

/-- Calls the handler of an event. An event without a handler is dropped. -/
def dispatch (h : Handlers α) : NodeEvent → Option α
  | .fifoDelivered d => h.fifoDelivered.map (· d)
  | .causalDelivered d => h.causalDelivered.map (· d)
  | .newView v => h.newView.map (· v)
  | .abcast op => h.abcast.map (· op)
  | .peerUp p => h.peerUp.map (· p)
  | .peerDown p reason => h.peerDown.map (· p reason)

/-- Which handlers there are. -/
def text (h : Handlers α) : String :=
  let fields := [
    ("fifo_delivered", h.fifoDelivered.isSome),
    ("causal_delivered", h.causalDelivered.isSome),
    ("new_view", h.newView.isSome),
    ("abcast", h.abcast.isSome),
    ("peer_up", h.peerUp.isSome),
    ("peer_down", h.peerDown.isSome)]
  "EventHandlers \x7b " ++
    ", ".intercalate (fields.map fun (name, b) => name ++ ": " ++ toString b) ++ " \x7d"

end Handlers

end Multicast
