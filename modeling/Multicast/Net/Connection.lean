import Multicast.Net.Event
import Multicast.Wire.Frame
import Multicast.Wire.Handshake

/-! One connection: handshake, framing and the slot for a single outbound message. -/
namespace Multicast

inductive DialState where
  | underway
  | failed
  /-- The addresses are known. -/
  | done (key : ConnectionKey)
  deriving DecidableEq, Repr

/-- A socket, as far as its owner can tell. -/
structure Socket where
  dial : DialState := .underway
  /-- Bytes that arrived and were not read. -/
  incoming : Bytes := []
  /-- The far end writes no more. -/
  ended : Bool := false
  /-- Bytes written and not carried away. -/
  outgoing : Bytes := []
  /-- How many bytes can be written before writing has to wait; any number if there is none. -/
  room : Option Nat := none
  /-- Writing was ended here. -/
  shut : Bool := false
  deriving DecidableEq, Repr

inductive Link where
  | socket (s : Socket)
  /-- A connection to oneself, which needs no socket. -/
  | loopback (outbound : Option Bytes) (inbox : List Bytes)
  deriving DecidableEq, Repr

inductive Phase where
  /-- Opened here: dialing, then waiting for the peer's identity. -/
  | connecting
  /-- Opened by the peer: the own identity is sent, the peer's awaited. -/
  | accepting
  | connected
  deriving DecidableEq, Repr

structure Connection where
  id : ConnectionId
  /-- The local process. -/
  here : Proc
  /-- The peer expected or learned. -/
  remote : Option Proc
  phase : Phase
  link : Link
  key : Option ConnectionKey := none
  readBuffer : Bytes := []
  writeBuffer : Bytes := []
  senderEnabled : Bool := false
  receiverEnabled : Bool := false
  /-- A message was set and is not written. -/
  slotOccupied : Bool := false
  /-- The next message was asked for and not set. -/
  readySignalled : Bool := false
  /-- The peer writes no more; heeded once the frames in the buffer are out. -/
  peerClosed : Bool := false
  /-- No message is asked for any more, and writing ends after the pending one. -/
  closing : Bool := false
  writeClosed : Bool := false
  deriving DecidableEq, Repr

inductive Liveness where
  | alive
  /-- The peer closed between two frames. -/
  | closed
  deriving DecidableEq, Repr

/-- What came of attending to a connection. The events are reported even if it broke. -/
structure Serviced where
  connection : Connection
  events : List TransportEvent
  outcome : Except NetError Liveness

namespace Connection

/-- A connection that is being opened. -/
def dialing (id : ConnectionId) (here remote : Proc) (s : Socket) : Connection where
  id
  here
  remote := some remote
  phase := .connecting
  link := .socket s

/-- A connection a peer has opened. The local identity is the first thing written. -/
def accepting (id : ConnectionId) (here : Proc) (key : ConnectionKey) (s : Socket) :
    Connection where
  id
  here
  remote := none
  phase := .accepting
  link := .socket { s with dial := .done key }
  key := some key
  writeBuffer := Handshake.encode here

/-- A connection to oneself is connected from the start. -/
def loopback (id : ConnectionId) (here : Proc) : Connection where
  id
  here
  remote := some here
  phase := .connected
  link := .loopback none []

def isLoopback (c : Connection) : Bool :=
  match c.link with
  | .loopback _ _ => true
  | .socket _ => false

/-- Asks for the next message, once, if one can be taken. -/
def signalReady (c : Connection) : Connection × List TransportEvent :=
  if c.phase = .connected && c.senderEnabled && !c.closing && !c.slotOccupied &&
      !c.readySignalled then
    ({ c with readySignalled := true }, [.ready c.id])
  else (c, [])

/-- Puts a message into the slot, which must be free. -/
def setMessage (c : Connection) (payload : Bytes) (max : Nat) : Except NetError Connection :=
  if c.slotOccupied then .error (.slotOccupied c.id)
  else if c.phase ≠ .connected then .error (.notConnected c.id)
  else if max < payload.length then .error (.frameTooLarge payload.length max)
  else
    let c := { c with slotOccupied := true, readySignalled := false }
    match c.link with
    | .socket _ => .ok { c with writeBuffer := c.writeBuffer ++ Frame.encode payload }
    | .loopback _ inbox => .ok { c with link := .loopback (some payload) inbox }

def setSender (c : Connection) (enabled : Bool) : Connection × List TransportEvent :=
  let c := { c with senderEnabled := enabled }
  if enabled then c.signalReady else (c, [])

def setReceiver (c : Connection) (enabled : Bool) : Connection :=
  { c with receiverEnabled := enabled }

/-- Asks for no more messages, and reads on until the peer closes too. -/
def beginClose (c : Connection) : Connection :=
  { c with closing := true, senderEnabled := false, receiverEnabled := true }

/-- Frees the slot after the pending message has left, ends writing if the connection is closing,
and asks for the next message. -/
def release (c : Connection) : Connection × List TransportEvent :=
  let c := { c with slotOccupied := false }
  if c.closing && !c.writeClosed then
    let link := match c.link with
      | .socket s => .socket { s with shut := true }
      | l => l
    { c with link, writeClosed := true }.signalReady
  else c.signalReady

/-- Writes what there is room for. -/
def flush (c : Connection) : Except NetError (Connection × List TransportEvent) :=
  match c.link with
  | .loopback outbound inbox =>
    .ok { c with link := .loopback none (inbox ++ outbound.toList) }.release
  | .socket s =>
    if c.key.isNone then .ok (c, [])
    else if c.writeBuffer = [] then .ok c.release
    else if s.shut then .error .io
    else
      let n := match s.room with
        | some room => min room c.writeBuffer.length
        | none => c.writeBuffer.length
      let s := { s with
        outgoing := s.outgoing ++ c.writeBuffer.take n
        room := s.room.map (· - n) }
      let c := { c with link := .socket s, writeBuffer := c.writeBuffer.drop n }
      if c.writeBuffer = [] then .ok c.release else .ok (c, [])

/-- Reads all that has arrived. -/
def readSocket (c : Connection) : Connection :=
  match c.link with
  | .loopback _ _ => c
  | .socket s =>
    { c with
      link := .socket { s with incoming := [] }
      readBuffer := c.readBuffer ++ s.incoming
      peerClosed := s.ended }

/-- Reads the peer's identity once it is complete. The side that dialed answers with its own only
if the peer is the one it expects. -/
def advanceHandshake (c : Connection) : Except NetError (Connection × List TransportEvent) :=
  match Handshake.front c.readBuffer with
  | .incomplete => .ok (c, [])
  | .invalid e _ => .error (.handshake e)
  | .identity peer rest =>
    let c := { c with readBuffer := rest }
    match c.phase with
    | .connecting =>
      if c.remote = some peer then
        let (c, events) := { c with
          phase := .connected
          writeBuffer := c.writeBuffer ++ Handshake.encode c.here }.signalReady
        .ok (c, .connected c.id peer c.key :: events)
      else .error (.handshakeMismatch c.remote peer)
    | .accepting =>
      let (c, events) := { c with phase := .connected, remote := some peer }.signalReady
      .ok (c, (c.key.map (TransportEvent.accepted c.id peer)).toList ++ events)
    | .connected => .ok c.signalReady

/-- Reports the frames in the buffer if they are wanted, then heeds that the peer has closed. -/
def deliverFrames (c : Connection) (max : Nat) (events : List TransportEvent) : Serviced :=
  if c.phase = .connected && c.receiverEnabled then
    let d := Frame.decodeAll max c.readBuffer
    let events := events ++ d.frames.map (TransportEvent.received c.id)
    let c := { c with readBuffer := d.rest }
    match d.tooLarge with
    | some len => ⟨c, events, .error (.frameTooLarge len max)⟩
    | none =>
      if !c.peerClosed then ⟨c, events, .ok .alive⟩
      else if c.readBuffer = [] then ⟨c, events, .ok .closed⟩
      else ⟨c, events, .error (.truncatedFrame c.readBuffer.length)⟩
  else if c.peerClosed && c.phase ≠ .connected then ⟨c, events, .error .handshakeIncomplete⟩
  else ⟨c, events, .ok .alive⟩

/-- Reads what is wanted, advances the handshake and reports frames. A socket is not read while
frames are not wanted. -/
def processInbound (c : Connection) (max : Nat) : Serviced :=
  match c.link with
  | .loopback outbound inbox =>
    if c.receiverEnabled then
      ⟨{ c with link := .loopback outbound [] }, inbox.map (TransportEvent.received c.id),
        .ok .alive⟩
    else ⟨c, [], .ok .alive⟩
  | .socket _ =>
    if c.key.isNone then ⟨c, [], .ok .alive⟩
    else
      let wanted := c.phase ≠ .connected || c.receiverEnabled
      let c := if wanted && !c.peerClosed then c.readSocket else c
      if c.phase ≠ .connected then
        match c.advanceHandshake with
        | .error e => ⟨c, [], .error e⟩
        | .ok (c, events) => c.deliverFrames max events
      else c.deliverFrames max []

/-- Notes that the dial has come to an end. -/
def finishDial (c : Connection) : Except NetError Connection :=
  if c.key.isSome then .ok c
  else
    match c.link with
    | .loopback _ _ => .ok c
    | .socket s =>
      match s.dial with
      | .underway => .ok c
      | .failed => .error .io
      | .done key => .ok { c with key := some key }

/-- Whether the socket, if there is one, is connected. -/
def isDialed (c : Connection) : Bool := c.isLoopback || c.key.isSome

/-- Attends to a connection: ends the dial, writes, reads, and writes what reading has queued. -/
def service (c : Connection) (max : Nat) : Serviced :=
  match c.finishDial with
  | .error e => ⟨c, [], .error e⟩
  | .ok c =>
    if !c.isDialed then ⟨c, [], .ok .alive⟩
    else
      match c.flush with
      | .error e => ⟨c, [], .error e⟩
      | .ok (c, written) =>
        let r := c.processInbound max
        match r.outcome with
        | .ok .alive =>
          match r.connection.flush with
          | .error e => ⟨r.connection, written ++ r.events, .error e⟩
          | .ok (c, more) => ⟨c, written ++ r.events ++ more, .ok .alive⟩
        | outcome => ⟨r.connection, written ++ r.events, outcome⟩

end Connection

end Multicast
