import Multicast.Bytes
import Multicast.MessageId

/-! What the ordering layers have in common: their packets, errors and output. -/
namespace Multicast

/-- A payload and its place in the sender's stream to one destination. -/
structure FifoPacket where
  sequence : Nat
  payload : Bytes
  deriving DecidableEq, Repr

inductive CausalPacket where
  /-- A message, with all its destinations so that a receiver knows whom to acknowledge to. -/
  | send (id : MessageId) (destinations : List Proc) (payload : Bytes)
  /-- The news that the sender of the packet has delivered the message. -/
  | ack (id : MessageId)
  deriving DecidableEq, Repr

inductive OrderError where
  | duplicateMember (p : Proc)
  | notInitialized
  | alreadyInitialized
  /-- A destination or a source that is no member. -/
  | unknownProcess (p : Proc)
  | noDestinations
  | reorderBufferFull (source : Proc) (limit : Nat)
  deriving DecidableEq, Repr

namespace OrderError

def message : OrderError → String
  | .duplicateMember p => "duplicate member in view: " ++ p.text
  | .notInitialized => "layer is not initialized"
  | .alreadyInitialized => "layer is already initialized"
  | .unknownProcess p => "unknown process: " ++ p.text
  | .noDestinations => "send has no destinations"
  | .reorderBufferFull source limit =>
    "reorder buffer for " ++ source.text ++ " is full (" ++ toString limit ++ " packets)"

end OrderError

structure Outgoing (π : Type) where
  destination : Proc
  packet : π
  deriving DecidableEq, Repr

/-- A payload handed to the application, and the process that sent it first. -/
structure Delivery where
  source : Proc
  payload : Bytes
  deriving DecidableEq, Repr

/-- What one operation of a layer asks for, each list in the order to carry it out. -/
structure Output (π : Type) where
  sends : List (Outgoing π) := []
  delivered : List Delivery := []
  /-- Member lists: the processes the layer now talks to. -/
  directives : List (List Proc) := []
  /-- Own messages that every destination has acknowledged. -/
  completed : List MessageId := []
  deriving DecidableEq, Repr

namespace Output

variable {π : Type}

def isEmpty (o : Output π) : Bool :=
  o.sends.isEmpty && o.delivered.isEmpty && o.directives.isEmpty && o.completed.isEmpty

/-- The first output, then the second. -/
def append (o p : Output π) : Output π where
  sends := o.sends ++ p.sends
  delivered := o.delivered ++ p.delivered
  directives := o.directives ++ p.directives
  completed := o.completed ++ p.completed

instance : Append (Output π) := ⟨append⟩

end Output

end Multicast
