import Multicast.Net.Transport
import Multicast.Node.Event

/-! Which connection a process is reached over, and what waits to be sent to it.

The lower identity dials when a process is announced; a process with messages to send dials in any
case. If both ends have dialed, both keep the same connection and close the other. -/
namespace Multicast

/-- What a peer table needs of a transport. -/
class Carrier (τ : Type) where
  /-- Opens a connection. -/
  connect : τ → Proc → ConnectionId × τ
  /-- Drops a connection. -/
  disconnect : τ → ConnectionId → τ
  /-- Closes a connection without losing what is under way. -/
  close : τ → ConnectionId → τ
  /-- Hands over the next message. -/
  setMessage : τ → ConnectionId → Bytes → Except NetError Unit × τ
  /-- Starts to report frames and to ask for messages; tells whether there was a connection. -/
  start : τ → ConnectionId → Bool × τ

instance : Carrier Transport where
  connect := Transport.connect
  disconnect t c := (t.disconnect c).toOption.getD t
  close t c := (t.close c).toOption.getD t
  setMessage := Transport.setMessage
  start t c :=
    match t.setReceiver c true with
    | .error _ => (false, t)
    | .ok t =>
      match t.setSender c true with
      | .error _ => (false, t)
      | .ok t => (true, t)

/-- The connection a process is reached over. -/
structure PeerLink where
  connection : ConnectionId
  key : Option ConnectionKey
  /-- The transport asked for a message and was not given one. -/
  ready : Bool := false
  /-- The message that was handed over and may not have left. -/
  inFlight : Option Bytes := none
  deriving DecidableEq, Repr

structure Peer where
  link : Option PeerLink := none
  /-- A connection opened here that has not completed its handshake. -/
  dialing : Option ConnectionId := none
  /-- Messages to be handed over, oldest first. -/
  outbox : List Bytes := []
  deriving DecidableEq, Repr

structure PeerTable where
  /-- The local process. -/
  here : Proc
  peers : Table Proc Peer := []
  /-- The process of each connection in use. -/
  owners : Table ConnectionId Proc := []
  deriving DecidableEq, Repr

namespace Peer

def isReachable (p : Peer) : Bool := p.link.isSome || p.dialing.isSome

end Peer

namespace PeerTable

variable {τ : Type} [Carrier τ]

def peer (t : PeerTable) (p : Proc) : Peer := (t.peers.get? p).getD {}

def set (t : PeerTable) (p : Proc) (peer : Peer) : PeerTable :=
  { t with peers := t.peers.put p peer }

/-- The process at the other end of a connection. -/
def ownerOf? (t : PeerTable) (c : ConnectionId) : Option Proc := t.owners.get? c

def dial (t : PeerTable) (p : Proc) (net : τ) : PeerTable × τ :=
  let (c, net) := Carrier.connect net p
  ({ t with owners := t.owners.put c p }.set p { t.peer p with dialing := some c }, net)

/-- Hands over messages from the front of `outbox` until one is taken. A message that is too large
is dropped. -/
def handOver (link : PeerLink) (net : τ) : List Bytes → PeerLink × List Bytes × τ
  | [] => (link, [], net)
  | payload :: outbox =>
    match Carrier.setMessage net link.connection payload with
    | (.ok (), net) => ({ link with ready := false, inFlight := some payload }, outbox, net)
    | (.error (.frameTooLarge _ _), net) => handOver link net outbox
    | (.error _, net) => ({ link with ready := false }, payload :: outbox, net)

/-- Hands over a message if the connection of `p` asked for one. -/
def pump (t : PeerTable) (p : Proc) (net : τ) : PeerTable × τ :=
  let peer := t.peer p
  match peer.link.filter (·.ready) with
  | none => (t, net)
  | some link =>
    let (link, outbox, net) := handOver link net peer.outbox
    (t.set p { peer with link := some link, outbox }, net)

/-- Sees to it that `p` is or will be connected, if this is up to the local process. -/
def ensure (t : PeerTable) (p : Proc) (net : τ) : PeerTable × τ :=
  let peer := t.peer p
  let t := t.set p peer
  if !peer.isReachable && (t.here.isAtMost p || !peer.outbox.isEmpty) then t.dial p net
  else (t, net)

/-- Queues a message for `p`, and hands it over if the connection asked for one. -/
def send (t : PeerTable) (p : Proc) (payload : Bytes) (net : τ) : PeerTable × τ :=
  let peer := t.peer p
  let t := t.set p { peer with outbox := peer.outbox ++ [payload] }
  let (t, net) := if peer.isReachable then (t, net) else t.dial p net
  t.pump p net

/-- Drops the connections of `p` and what waits for it. -/
def forget (t : PeerTable) (p : Proc) (net : τ) : PeerTable × τ :=
  match t.peers.get? p with
  | none => (t, net)
  | some peer =>
    let connections := (peer.link.map (·.connection)).toList ++ peer.dialing.toList
    ({ t with
      peers := t.peers.erase p
      owners := connections.foldl Table.erase t.owners },
      connections.foldl Carrier.disconnect net)

/-- Takes `c` as the connection of `p` and starts it. The process is up if it had no connection
before. -/
def adopt (t : PeerTable) (c : ConnectionId) (p : Proc) (key : Option ConnectionKey) (net : τ) :
    List NodeEvent × PeerTable × τ :=
  let peer := t.peer p
  let t := { t with owners := t.owners.put c p }.set p { peer with link := some ⟨c, key, false, none⟩ }
  let (started, net) := Carrier.start net c
  (if started && peer.link.isNone then [.peerUp p] else [], t, net)

/-- Heeds that a connection has completed its handshake. Of two connections of one process, the
tie-break chooses which is closed; without a decision, it is the later. -/
def onEstablished (t : PeerTable) (c : ConnectionId) (p : Proc) (key : Option ConnectionKey)
    (net : τ) : List NodeEvent × PeerTable × τ :=
  let peer := t.peer p
  let peer := if peer.dialing = some c then { peer with dialing := none } else peer
  let t := t.set p peer
  match peer.link with
  | none => t.adopt c p key net
  | some link =>
    match tieBreak link.key key with
    | .keepFirst | .tied =>
      ([], { t with owners := t.owners.put c p }, Carrier.close net c)
    | .keepSecond => t.adopt c p key (Carrier.close net link.connection)

/-- Heeds that a connection asks for the next message. -/
def onReady (t : PeerTable) (c : ConnectionId) (net : τ) : PeerTable × τ :=
  match t.ownerOf? c with
  | none => (t, net)
  | some p =>
    match t.peers.get? p with
    | none => (t, net)
    | some peer =>
      let link := peer.link.map fun link =>
        if link.connection = c then { link with ready := true, inFlight := none } else link
      (t.set p { peer with link }).pump p net

/-- Heeds that a connection has closed or broken. The message in flight goes back to the front;
if it did arrive, the receiver drops it the second time. -/
def onLost (t : PeerTable) (c : ConnectionId) (remote : Option Proc) (reason : String) :
    List NodeEvent × PeerTable :=
  match (t.ownerOf? c).or remote with
  | none => ([], t)
  | some p =>
    let t := { t with owners := t.owners.erase c }
    match t.peers.get? p with
    | none => ([], t)
    | some peer =>
      if peer.dialing = some c then ([], t.set p { peer with dialing := none })
      else
        match peer.link with
        | none => ([], t)
        | some link =>
          if link.connection = c then
            ([.peerDown p reason],
              t.set p { peer with link := none, outbox := link.inFlight.toList ++ peer.outbox })
          else ([], t)

end PeerTable

end Multicast
