import Multicast.Bytes
import Multicast.Net.TieBreak
import Multicast.Proc

/-! What the transport reports, and its errors. -/
namespace Multicast

/-- The number of a connection. A transport uses none twice. -/
abbrev ConnectionId := Nat

namespace ConnectionId

def text (c : ConnectionId) : String := "conn-" ++ toString c

end ConnectionId

inductive NetError where
  | io
  | bindFailed
  | resolve (p : Proc)
  /-- The address names no socket address. -/
  | unresolvable (p : Proc)
  | handshake (e : IdentityError)
  /-- The peer is not the process that was dialed. -/
  | handshakeMismatch (expected : Option Proc) (actual : Proc)
  | handshakeIncomplete
  | frameTooLarge (len max : Nat)
  /-- The peer closed in the middle of a frame. -/
  | truncatedFrame (buffered : Nat)
  | notConnected (c : ConnectionId)
  | unknownConnection (c : ConnectionId)
  /-- A message was set over one that is pending, which a caller must never do. -/
  | slotOccupied (c : ConnectionId)
  deriving DecidableEq, Repr

namespace NetError

def message : NetError → String
  | .io => "i/o error"
  | .bindFailed => "failed to bind"
  | .resolve _ => "failed to resolve"
  | .unresolvable p => "no socket address for " ++ p.text
  | .handshake e => "handshake decode error: " ++ e.message
  | .handshakeMismatch expected actual =>
    let expected := match expected with
      | some p => "Some(" ++ p.tagged ++ ")"
      | none => "None"
    "handshake identity mismatch: expected " ++ expected ++ ", got " ++ actual.text
  | .handshakeIncomplete => "peer closed during handshake"
  | .frameTooLarge len max =>
    "frame of " ++ toString len ++ " bytes exceeds maximum of " ++ toString max
  | .truncatedFrame buffered =>
    "peer closed mid-frame with " ++ toString buffered ++ " bytes buffered"
  | .notConnected c => "connection " ++ ConnectionId.text c ++ " is not established"
  | .unknownConnection c => "unknown connection " ++ ConnectionId.text c
  | .slotOccupied c =>
    "message set on " ++ ConnectionId.text c ++ " while the previous one is still pending"

end NetError

inductive TransportEvent where
  /-- A connection that a peer opened has completed its handshake. -/
  | accepted (c : ConnectionId) (remote : Proc) (key : ConnectionKey)
  /-- A connection opened here has completed its handshake. The one to oneself has no key. -/
  | connected (c : ConnectionId) (remote : Proc) (key : Option ConnectionKey)
  /-- The peer closed between two frames. -/
  | closed (c : ConnectionId) (remote : Option Proc)
  | broken (c : ConnectionId) (remote : Option Proc) (cause : NetError)
  | received (c : ConnectionId) (payload : Bytes)
  /-- The connection can take the next message. -/
  | ready (c : ConnectionId)
  deriving DecidableEq, Repr

end Multicast
