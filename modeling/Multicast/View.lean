import Multicast.Proc

/-! Group views. -/
namespace Multicast

abbrev ViewId := Nat

namespace ViewId

def text (v : ViewId) : String := "v" ++ toString v

end ViewId

/-- A member list agreed on, and its place in the sequence of views. -/
structure View where
  id : ViewId
  members : List Proc
  deriving DecidableEq, Repr

namespace View

/-- The member that sends a joiner the state of the group. -/
def sponsor? (v : View) : Option Proc := v.members.head?

def text (v : View) : String :=
  v.id.text ++ " \x7b" ++ ", ".intercalate (v.members.map Proc.text) ++ "\x7d"

end View

/-- The state a joiner receives: a view and the processes this transfer introduces to it. -/
structure StateTransfer where
  viewId : ViewId
  members : List Proc
  added : List Proc
  deriving DecidableEq, Repr

end Multicast
