import Multicast.Membership
import Multicast.Net.Event
import Multicast.Order.Layer
import Multicast.Settings.Basic
import Multicast.Wire.Varint

/-! The errors of a node. -/
namespace Multicast

inductive NodeError where
  | net (e : NetError)
  | order (e : OrderError)
  | membership (e : MembershipError)
  | settings (e : SettingsError)
  | codec (e : WireError)
  /-- So many commands wait already. -/
  | busy (commands : Nat)
  /-- A call that waits was made by a handler, which would wait for itself. -/
  | onNodeThread
  | shutdown
  /-- A node whose queue can hold no command cannot be started. -/
  | noQueue
  deriving DecidableEq, Repr

namespace NodeError

/-- The message of the error that this one wraps. -/
def cause? : NodeError → Option String
  | .net e => some e.message
  | .order e => some e.message
  | .membership e => some e.message
  | .settings e => some e.message
  | .codec e => some e.message
  | .busy _ | .onNodeThread | .shutdown | .noQueue => none

def message : NodeError → String
  | .net e => "transport error: " ++ e.message
  | .order e => "ordering error: " ++ e.message
  | .membership e => "membership error: " ++ e.message
  | .settings e => "configuration error: " ++ e.message
  | .codec e => "envelope codec error: " ++ e.message
  | .busy commands => "stack busy: command queue holds " ++ toString commands ++ " commands"
  | .onNodeThread => "blocking call from the stack thread"
  | .shutdown => "stack shut down"
  | .noQueue => "queue capacity must be positive"

/-- The message, then that of its cause. -/
def chain (e : NodeError) : List String := e.message :: e.cause?.toList

def isRetryable : NodeError → Bool
  | .busy _ => true
  | _ => false

end NodeError

end Multicast
