import Multicast.Net.Event

/-! What is around a process: the names of hosts, the addresses it can listen at, and the endpoints
it can dial. -/
namespace Multicast

structure Network where
  /-- The addresses of a host, first to last, if its name can be resolved. -/
  lookup : String → Option (List HostAddress)
  /-- The port of a listener that asks for this one, if it may have the address and the port. Port
  zero asks for any free port. -/
  listen : HostAddress → UInt16 → Option UInt16
  /-- Whether the dial with this number does not fail at once. -/
  dials : ConnectionId → HostAddress → UInt16 → Bool

namespace Network

/-- The address that a process is reached at. -/
def resolve (n : Network) (p : Proc) : Except NetError HostAddress :=
  match n.lookup p.address with
  | none => .error (.resolve p)
  | some [] => .error (.unresolvable p)
  | some (a :: _) => .ok a

/-- Whether a host without a network takes an address for its own: any four octets, also as the end
of eight segments, but of all others only the address of any host. -/
def isOwn : HostAddress → Bool
  | .v4 _ | .v6 [0, 0, 0, 0, 0, 0xFFFF, _, _] => true
  | .v6 segments => segments.all (· = 0)

/-- A host that knows no names but its own, and has no way to any other. -/
def isolated (freePort : UInt16) : Network where
  lookup name := (HostAddress.read? name).map ([·])
  listen a port := if isOwn a then some (if port = 0 then freePort else port) else none
  dials _ _ _ := false

end Network

end Multicast
