import Multicast.Net.Connection
import Multicast.Net.Network
import Multicast.Table

/-! The transport: the listener and all connections of one process. Commands only change
connections; what comes of them is reported by the next poll. -/
namespace Multicast

structure TransportConfig where
  /-- Longest payload of a frame. -/
  maxFrameSize : Nat := Frame.defaultMaxSize
  bufferSize : Nat := 65536
  nodelay : Bool := true
  eventsCapacity : Nat := 1024
  deriving DecidableEq, Repr

/-- What the operating system has to report. -/
inductive Readiness where
  /-- Sockets that peers have opened. -/
  | incoming (sockets : List (ConnectionKey × Socket))
  /-- Something has changed on the socket of a connection. -/
  | connection (c : ConnectionId)
  deriving DecidableEq, Repr

structure Transport where
  /-- The local process, with the port the listener is bound to. -/
  here : Proc
  config : TransportConfig := {}
  network : Network
  /-- Oldest first. -/
  connections : Table ConnectionId Connection := []
  nextId : ConnectionId := 2
  /-- Connections to attend to on the next poll in any case. -/
  dirty : List ConnectionId := []
  /-- Events to report on the next poll. -/
  pending : List TransportEvent := []
  /-- Connections on which a message was set over a pending one. -/
  overwrites : List ConnectionId := []

namespace Transport

/-- Binds the listener to the endpoint of an identity, which then has the port that was bound. -/
def bind (p : Proc) (config : TransportConfig) (network : Network) :
    Except NetError Transport := do
  let address ← network.resolve p
  match network.listen address p.port with
  | none => throw .bindFailed
  | some port => return { here := p.withPort port, config, network }

def connection? (t : Transport) (c : ConnectionId) : Option Connection := t.connections.get? c

/-- Lets `f` change a connection. -/
def update (t : Transport) (c : ConnectionId) (f : Connection → Connection) : Transport :=
  match t.connection? c with
  | some conn => { t with connections := t.connections.put c (f conn) }
  | none => t

/-- Begins to dial with a connection, unless this fails at once. -/
def dial (t : Transport) (c : ConnectionId) (remote : Proc) : Except NetError Socket := do
  let address ← t.network.resolve remote
  if t.network.dials c address remote.port then return {} else throw .io

/-- Opens a connection. A dial that fails at once is reported like any other. -/
def connect (t : Transport) (remote : Proc) : ConnectionId × Transport :=
  let id := t.nextId
  let t := { t with nextId := id + 1 }
  if remote = t.here then
    (id,
      { t with
        connections := t.connections.put id (.loopback id t.here)
        pending := t.pending ++ [.connected id remote none] })
  else
    match t.dial id remote with
    | .ok s =>
      (id, { t with connections := t.connections.put id (.dialing id t.here remote s) })
    | .error e => (id, { t with pending := t.pending ++ [.broken id (some remote) e] })

/-- Drops a connection without a report. -/
def disconnect (t : Transport) (c : ConnectionId) : Except NetError Transport :=
  match t.connection? c with
  | none => .error (.unknownConnection c)
  | some _ => .ok { t with connections := t.connections.erase c }

/-- Closes a connection without losing what is under way. The one to oneself and one without a
handshake are dropped. -/
def close (t : Transport) (c : ConnectionId) : Except NetError Transport :=
  match t.connection? c with
  | none => .error (.unknownConnection c)
  | some conn =>
    if conn.isLoopback || conn.phase ≠ .connected then t.disconnect c
    else .ok { t with
      connections := t.connections.put c conn.beginClose
      dirty := t.dirty ++ [c] }

/-- Fills the slot of a connection. Also tells the transport after a failure, which remembers a
message set over a pending one. -/
def setMessage (t : Transport) (c : ConnectionId) (payload : Bytes) :
    Except NetError Unit × Transport :=
  match t.connection? c with
  | none => (.error (.unknownConnection c), t)
  | some conn =>
    match conn.setMessage payload t.config.maxFrameSize with
    | .ok conn =>
      (.ok (), { t with connections := t.connections.put c conn, dirty := t.dirty ++ [c] })
    | .error e =>
      (.error e, if conn.slotOccupied then { t with overwrites := t.overwrites ++ [c] } else t)

def setSender (t : Transport) (c : ConnectionId) (enabled : Bool) : Except NetError Transport :=
  match t.connection? c with
  | none => .error (.unknownConnection c)
  | some conn =>
    let (conn, events) := conn.setSender enabled
    .ok { t with connections := t.connections.put c conn, pending := t.pending ++ events }

/-- A receiver that starts may find bytes that came before, so it is attended to. -/
def setReceiver (t : Transport) (c : ConnectionId) (enabled : Bool) : Except NetError Transport :=
  match t.connection? c with
  | none => .error (.unknownConnection c)
  | some conn =>
    let t := { t with connections := t.connections.put c (conn.setReceiver enabled) }
    .ok (if enabled then { t with dirty := t.dirty ++ [c] } else t)

/-- Attends to a connection. One that closed or broke is dropped, which is reported after all that
it still brought. -/
def service (t : Transport) (c : ConnectionId) : Transport :=
  match t.connection? c with
  | none => t
  | some conn =>
    let r := conn.service t.config.maxFrameSize
    let remote := r.connection.remote
    match r.outcome with
    | .ok .alive =>
      { t with
        connections := t.connections.put c r.connection
        pending := t.pending ++ r.events }
    | .ok .closed =>
      { t with
        connections := t.connections.erase c
        pending := t.pending ++ r.events ++ [.closed c remote] }
    | .error e =>
      { t with
        connections := t.connections.erase c
        pending := t.pending ++ r.events ++ [.broken c remote e] }

def serviceDirty (t : Transport) : Transport := t.dirty.foldl service { t with dirty := [] }

/-- Takes up a socket that a peer has opened. -/
def accept (t : Transport) (s : ConnectionKey × Socket) : Transport :=
  let id := t.nextId
  { t with
    nextId := id + 1
    connections := t.connections.put id (.accepting id t.here s.1 s.2)
    dirty := t.dirty ++ [id] }

def heed (t : Transport) : Readiness → Transport
  | .incoming sockets => sockets.foldl accept t
  | .connection c => t.service c

/-- Attends to all that waits or is ready, and reports what came of it. -/
def poll (t : Transport) (ready : List Readiness) : List TransportEvent × Transport :=
  let t := (ready.foldl heed t.serviceDirty).serviceDirty
  (t.pending, { t with pending := [] })

/-- Whether the next poll has something to do without any report of the operating system. -/
def isBusy (t : Transport) : Bool := !t.dirty.isEmpty || !t.pending.isEmpty

end Transport

end Multicast
