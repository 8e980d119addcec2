import Multicast.Node.Error

/-! What an application asks of a node, and what it is told in reply. -/
namespace Multicast

/-- The number of a call that waits for its reply. -/
abbrev Ticket := Nat

/-- Where a message goes. -/
inductive Destinations where
  /-- To the members of the view there is when the node takes up the command. -/
  | view
  | processes (ps : List Proc)
  deriving DecidableEq, Repr

namespace Destinations

def resolve (members : List Proc) : Destinations → List Proc
  | .view => members
  | .processes ps => ps

end Destinations

inductive Command where
  | fifoSend (payload : Bytes) (dests : Destinations)
  | causalSend (t : Ticket) (payload : Bytes) (dests : Destinations)
  | join (p : Proc)
  | remove (p : Proc)
  /-- A change that the group has agreed on. -/
  | adeliver (op : MembershipOp)
  | view (t : Ticket)
  deriving DecidableEq, Repr

namespace Command

/-- The call that waits for a reply to this command. -/
def ticket? : Command → Option Ticket
  | .causalSend t _ _ | .view t => some t
  | .fifoSend _ _ | .join _ | .remove _ | .adeliver _ => none

end Command

/-- Where a call comes from. -/
inductive Caller where
  /-- A thread of the application. -/
  | application
  /-- A handler of events, which runs on the thread of the node. -/
  | handler
  deriving DecidableEq, Repr

inductive Reply where
  | sent
  | view (v : Option View)
  deriving DecidableEq, Repr

/-- A reply and the call it is for. -/
structure Answer where
  ticket : Ticket
  result : Except NodeError Reply

end Multicast
