import Multicast.Net.Connection
import Multicast.Proofs.Wire.Frames

/-! What a connection reports and how it ends depend on the bytes of its peer alone: not on the
chunks in which they come in, nor on when the receiver is started and stopped, nor on what is sent
meanwhile. -/
namespace Multicast

namespace TransportEvent

/-- Whether an event is about sending. -/
def isReady : TransportEvent → Bool
  | .ready _ => true
  | _ => false

/-- The events that are about what was received. -/
def inbound (events : List TransportEvent) : List TransportEvent := events.filter (!·.isReady)

variable {events more : List TransportEvent} {c : ConnectionId}

@[simp] theorem inbound_append : inbound (events ++ more) = inbound events ++ inbound more :=
  List.filter_append ..

@[simp] theorem inbound_received {payloads : List Bytes} :
    inbound (payloads.map (received c)) = payloads.map (received c) := by
  refine List.filter_eq_self.mpr fun event hevent => ?_
  obtain ⟨payload, -, rfl⟩ := List.mem_map.mp hevent
  rfl

end TransportEvent

open TransportEvent (inbound)

instance decidableEqExcept {ε α : Type} [DecidableEq ε] [DecidableEq α] :
    DecidableEq (Except ε α)
  | .error e, .error e' => decidable_of_iff (e = e') (Except.error.injEq e e').symm.to_iff
  | .ok a, .ok a' => decidable_of_iff (a = a') (Except.ok.injEq a a').symm.to_iff
  | .error _, .ok _ => isFalse nofun
  | .ok _, .error _ => isFalse nofun

/-- What is made of a stream of bytes: the events, and what becomes of the connection. -/
structure Reading where
  events : List TransportEvent
  outcome : Except NetError Liveness
  deriving DecidableEq

namespace Reading

/-- The same, behind events that came earlier. -/
def after (events : List TransportEvent) (r : Reading) : Reading := ⟨events ++ r.events, r.outcome⟩

/-- A stream of frames, read at once. -/
def frames (c : ConnectionId) (max : Nat) (stream : Bytes) (ended : Bool) : Reading :=
  let d := Frame.decodeAll max stream
  ⟨d.frames.map (.received c),
    match d.tooLarge with
    | some len => .error (.frameTooLarge len max)
    | none =>
      if !ended then .ok .alive
      else if d.rest = [] then .ok .closed
      else .error (.truncatedFrame d.rest.length)⟩

variable {c : ConnectionId} {max : Nat} {stream more : Bytes} {ended : Bool}
  {events earlier : List TransportEvent} {r : Reading}

@[simp] theorem after_after : (r.after events).after earlier = r.after (earlier ++ events) := by
  simp [after]

theorem frames_alive (h : (frames c max stream ended).outcome = .ok .alive) : ended = false := by
  cases ended with
  | false => rfl
  | true =>
    simp only [frames] at h
    split at h
    · cases h
    · split at h
      · contradiction
      · split at h <;> cases h

/-- As long as a connection goes on, more frames may follow those that were read. -/
theorem frames_append (h : (frames c max stream false).outcome = .ok .alive) :
    frames c max (stream ++ more) ended =
      (frames c max ((Frame.decodeAll max stream).rest ++ more) ended).after
        (frames c max stream false).events := by
  have hlarge : (Frame.decodeAll max stream).tooLarge = none := by
    cases hlarge : (Frame.decodeAll max stream).tooLarge with
    | none => rfl
    | some len => simp [frames, hlarge] at h
  simp only [frames, after, Frame.decodeAll_append hlarge, List.map_append]

/-- A frame that is too large ends the reading, and so does the end of the stream. -/
theorem frames_over {closed : Bool} (h : (frames c max stream closed).outcome ≠ .ok .alive)
    (hmore : closed = true → more = [] ∧ ended = true) :
    frames c max (stream ++ more) ended = frames c max stream closed := by
  cases hlarge : (Frame.decodeAll max stream).tooLarge with
  | some len =>
    obtain ⟨hframes, hmore⟩ := Frame.decodeAll_append_tooLarge hlarge more
    simp only [frames, hframes, hmore, hlarge]
  | none =>
    cases closed with
    | false => simp [frames, hlarge] at h
    | true =>
      obtain ⟨rfl, rfl⟩ := hmore rfl
      rw [List.append_nil]

/-- Behind the frames that were read there is none. -/
theorem frames_rest (h : (frames c max stream false).outcome = .ok .alive) :
    frames c max (Frame.decodeAll max stream).rest false = ⟨[], .ok .alive⟩ := by
  have hstuck := (Frame.decodeAll_spec max stream).2.2
  cases hlarge : (Frame.decodeAll max stream).tooLarge with
  | some len => simp [frames, hlarge] at h
  | none =>
    rw [hlarge] at hstuck
    simp [frames, Frame.decodeAll_incomplete hstuck]

end Reading

namespace Connection

/-- Bytes that have arrived on the socket. -/
def incoming (c : Connection) : Bytes :=
  match c.link with
  | .socket s => s.incoming
  | .loopback _ _ => []

/-- Whether the peer has sent its last byte and it has arrived. -/
def isEnded (c : Connection) : Bool :=
  match c.link with
  | .socket s => s.ended
  | .loopback _ _ => false

/-- All bytes that have arrived and are not decoded. -/
def ahead (c : Connection) : Bytes := c.readBuffer ++ c.incoming

/-- What the identity of the peer leads to: it may be another than the one that was dialed. -/
def greeting (c : Connection) (peer : Proc) : Except NetError (List TransportEvent) :=
  match c.phase with
  | .connecting =>
    if c.remote = some peer then .ok [.connected c.id peer c.key]
    else .error (.handshakeMismatch c.remote peer)
  | .accepting => .ok (c.key.map (TransportEvent.accepted c.id peer)).toList
  | .connected => .ok []

/-- What a connection makes of a stream, read at once: the handshake if that is to come, then
frames. -/
def reading (c : Connection) (max : Nat) (stream : Bytes) (ended : Bool) : Reading :=
  if c.phase = .connected then .frames c.id max stream ended
  else
    match Handshake.front stream with
    | .incomplete => ⟨[], if ended then .error .handshakeIncomplete else .ok .alive⟩
    | .invalid e _ => ⟨[], .error (.handshake e)⟩
    | .identity peer rest =>
      match c.greeting peer with
      | .error e => ⟨[], .error e⟩
      | .ok events => (Reading.frames c.id max rest ended).after events

variable {c c' : Connection} {max : Nat} {coming : Bytes} {events : List TransportEvent}

/-- What of a connection has to do with the bytes that come in. -/
def receiving (c : Connection) : Connection where
  id := c.id
  here := c.here
  remote := c.remote
  phase := c.phase
  link :=
    match c.link with
    | .socket s => .socket { incoming := s.incoming, ended := s.ended }
    | .loopback _ inbox => .loopback none inbox
  key := c.key
  readBuffer := c.readBuffer
  peerClosed := c.peerClosed

theorem incoming_receiving : c.receiving.incoming = c.incoming := by
  unfold incoming receiving
  cases c.link <;> rfl

theorem isEnded_receiving : c.receiving.isEnded = c.isEnded := by
  unfold isEnded receiving
  cases c.link <;> rfl

theorem isLoopback_receiving : c.receiving.isLoopback = c.isLoopback := by
  unfold isLoopback receiving
  cases c.link <;> rfl

theorem inbound_signalReady : inbound c.signalReady.2 = [] := by
  unfold signalReady
  split <;> rfl

theorem receiving_signalReady : c.signalReady.1.receiving = c.receiving := by
  unfold signalReady
  split <;> rfl

@[simp] theorem id_signalReady : c.signalReady.1.id = c.id := by
  unfold signalReady
  split <;> rfl

@[simp] theorem key_signalReady : c.signalReady.1.key = c.key := by
  unfold signalReady
  split <;> rfl

@[simp] theorem receiverEnabled_signalReady :
    c.signalReady.1.receiverEnabled = c.receiverEnabled := by
  unfold signalReady
  split <;> rfl

theorem inbound_setSender {enabled : Bool} : inbound (c.setSender enabled).2 = [] := by
  cases enabled with
  | true => exact inbound_signalReady
  | false => rfl

theorem receiving_setSender {enabled : Bool} :
    (c.setSender enabled).1.receiving = c.receiving := by
  cases enabled with
  | true => exact receiving_signalReady (c := { c with senderEnabled := true })
  | false => rfl

theorem receiving_setMessage {payload : Bytes} (h : c.setMessage payload max = .ok c') :
    c'.receiving = c.receiving := by
  unfold setMessage at h
  split at h
  · cases h
  · split at h
    · cases h
    · split at h
      · cases h
      · cases hlink : c.link <;> rw [hlink] at h <;> cases h <;> simp [receiving, hlink]

/-- A message is pending no more, and writing has ended if that was all there was to write. -/
def released (c : Connection) : Connection :=
  if c.closing && !c.writeClosed then
    { c with
      slotOccupied := false
      link := match c.link with
        | .socket s => .socket { s with shut := true }
        | l => l
      writeClosed := true }
  else { c with slotOccupied := false }

/-- As many of the bytes to write are gone as there was room for. -/
def written (c : Connection) (s : Socket) : Connection :=
  let n := match s.room with
    | some room => min room c.writeBuffer.length
    | none => c.writeBuffer.length
  { c with
    link := .socket { s with
      outgoing := s.outgoing ++ c.writeBuffer.take n
      room := s.room.map (· - n) }
    writeBuffer := c.writeBuffer.drop n }

theorem release_eq : c.release = c.released.signalReady := by
  simp only [release, released]
  split <;> rfl

theorem flush_socket {s : Socket} (h : c.link = .socket s) : c.flush =
    if c.key.isNone then .ok (c, [])
    else if c.writeBuffer = [] then .ok c.release
    else if s.shut then .error .io
    else if (c.written s).writeBuffer = [] then .ok (c.written s).release
    else .ok (c.written s, []) := by
  simp only [flush, h]
  rfl

theorem receiving_released : c.released.receiving = c.receiving := by
  unfold released
  split
  · cases hlink : c.link <;> simp [receiving, hlink]
  · rfl

theorem inbound_release : inbound c.release.2 = [] := by
  rw [release_eq]
  exact inbound_signalReady

theorem receiving_release : c.release.1.receiving = c.receiving := by
  rw [release_eq, receiving_signalReady, receiving_released]

theorem receiving_written {s : Socket} (h : c.link = .socket s) :
    (c.written s).receiving = c.receiving := by
  simp [written, receiving, h]

theorem flush_frame (hsocket : c.isLoopback = false) (h : c.flush = .ok (c', events)) :
    c'.receiving = c.receiving ∧ inbound events = [] := by
  cases hlink : c.link with
  | loopback _ _ => simp [isLoopback, hlink] at hsocket
  | socket s =>
    rw [flush_socket hlink] at h
    split at h
    · cases h
      exact ⟨rfl, rfl⟩
    · split at h
      · obtain ⟨rfl, rfl⟩ := Prod.mk.inj (Except.ok.inj h)
        exact ⟨receiving_release, inbound_release⟩
      · split at h
        · cases h
        · split at h
          · obtain ⟨rfl, rfl⟩ := Prod.mk.inj (Except.ok.inj h)
            exact ⟨receiving_release.trans (receiving_written hlink), inbound_release⟩
          · obtain ⟨rfl, rfl⟩ := Prod.mk.inj (Except.ok.inj h)
            exact ⟨receiving_written hlink, rfl⟩

theorem reading_connected (h : c.phase = .connected) :
    c.reading max = Reading.frames c.id max := by
  funext stream ended
  rw [reading, if_pos h]

theorem reading_incomplete (h : c.phase ≠ .connected) {stream : Bytes} {ended : Bool}
    (hfront : Handshake.front stream = .incomplete) : c.reading max stream ended =
      ⟨[], if ended then .error .handshakeIncomplete else .ok .alive⟩ := by
  simp only [reading, if_neg h, hfront]

/-- What is made of the bytes that come in depends on nothing else. -/
theorem receiving_congr (h : c'.receiving = c.receiving) : c'.reading = c.reading ∧
    c'.ahead = c.ahead ∧ c'.incoming = c.incoming ∧ c'.isEnded = c.isEnded := by
  have hreading : c'.reading = c.reading := congrArg (·.reading) h
  have hbuffer : c'.readBuffer = c.readBuffer := congrArg (·.readBuffer) h
  have hincoming : c'.incoming = c.incoming := by
    rw [← incoming_receiving, h, incoming_receiving]
  have hended : c'.isEnded = c.isEnded := by
    rw [← isEnded_receiving, h, isEnded_receiving]
  exact ⟨hreading, by rw [ahead, hbuffer, hincoming, ahead], hincoming, hended⟩

/-- A connection over a socket that is connected. Once the last byte has arrived, `coming` holds no
more, and the end of the stream is noted only when all has been read. -/
structure Intact (c : Connection) (coming : Bytes) : Prop where
  socket : c.isLoopback = false
  dialed : c.key.isSome = true
  ended : c.isEnded = true → coming = []
  closed : c.peerClosed = true → c.isEnded = true ∧ c.incoming = []

theorem Intact.congr (hc : c.Intact coming) (h : c'.receiving = c.receiving) :
    c'.Intact coming := by
  obtain ⟨-, -, hincoming, hended⟩ := receiving_congr h
  have hsocket : c'.isLoopback = c.isLoopback := by
    rw [← isLoopback_receiving, h, isLoopback_receiving]
  have hkey : c'.key = c.key := congrArg (·.key) h
  have hpeer : c'.peerClosed = c.peerClosed := congrArg (·.peerClosed) h
  refine ⟨hsocket.trans hc.socket, ?_, ?_, ?_⟩
  · rw [hkey]
    exact hc.dialed
  · rw [hended]
    exact hc.ended
  · rw [hpeer, hended, hincoming]
    exact hc.closed

/-- All that has arrived is in the buffer. -/
theorem readSocket_frame (h : c.isLoopback = false) :
    c.readSocket.incoming = [] ∧ c.readSocket.ahead = c.ahead ∧
      c.readSocket.isEnded = c.isEnded ∧ c.readSocket.peerClosed = c.isEnded ∧
      c.readSocket.isLoopback = false := by
  cases hlink : c.link with
  | loopback _ _ => simp [isLoopback, hlink] at h
  | socket s => simp [readSocket, incoming, ahead, isEnded, isLoopback, hlink]

theorem reading_readSocket : c.readSocket.reading = c.reading := by
  unfold readSocket
  split <;> rfl

/-- The peer is let in. Whoever dialed it only answers now. -/
def greeted (c : Connection) (peer : Proc) (rest : Bytes) : Connection :=
  { c with
    phase := .connected
    remote := some peer
    readBuffer := rest
    writeBuffer :=
      if c.phase = .connecting then c.writeBuffer ++ Handshake.encode c.here else c.writeBuffer }

theorem advanceHandshake_eq (h : c.phase ≠ .connected) : c.advanceHandshake =
    match Handshake.front c.readBuffer with
    | .incomplete => .ok (c, [])
    | .invalid e _ => .error (.handshake e)
    | .identity peer rest =>
      match c.greeting peer with
      | .error e => .error e
      | .ok events => .ok ((c.greeted peer rest).signalReady.1,
          events ++ (c.greeted peer rest).signalReady.2) := by
  cases hfront : Handshake.front c.readBuffer with
  | incomplete => simp only [advanceHandshake, hfront]
  | invalid e rest => simp only [advanceHandshake, hfront]
  | identity peer rest =>
    cases hphase : c.phase with
    | connecting =>
      by_cases hpeer : c.remote = some peer
      · simp [advanceHandshake, hfront, greeting, greeted, hphase, hpeer]
      · simp [advanceHandshake, hfront, greeting, hphase, hpeer]
    | accepting => simp [advanceHandshake, hfront, greeting, greeted, hphase]
    | connected => exact (h hphase).elim

theorem inbound_greeting {peer : Proc} (h : c.greeting peer = .ok events) :
    inbound events = events := by
  unfold greeting at h
  split at h
  · split at h <;> cases h
    rfl
  · cases h
    cases c.key <;> rfl
  · cases h
    rfl

/-- The complete frames are taken off the buffer. -/
def drained (c : Connection) (max : Nat) : Connection :=
  { c with readBuffer := (Frame.decodeAll max c.readBuffer).rest }

/-- To report the frames is to read the buffer at once. -/
theorem deliverFrames_eq (hphase : c.phase = .connected) (hreceiver : c.receiverEnabled = true) :
    c.deliverFrames max events =
      let r := Reading.frames c.id max c.readBuffer c.peerClosed
      ⟨c.drained max, events ++ r.events, r.outcome⟩ := by
  simp only [deliverFrames, drained, Reading.frames, hphase, hreceiver]
  cases (Frame.decodeAll max c.readBuffer).tooLarge with
  | some len => rfl
  | none =>
    cases c.peerClosed with
    | false => rfl
    | true =>
      simp only [Bool.and_true, decide_true, if_true, Bool.not_true, Bool.false_eq_true, if_false]
      split <;> rfl

/-- The events of a connection, and what becomes of it, agree with what is to be made of all bytes,
of which `coming` are still to arrive: `before` is what the whole stream leads to. -/
structure Explains (before : Bool → Reading) (max : Nat) (coming : Bytes) (r : Serviced) :
    Prop where
  going : r.outcome = .ok .alive → ∀ ended, before ended =
    (r.connection.reading max (r.connection.ahead ++ coming) ended).after (inbound r.events)
  finished : r.outcome ≠ .ok .alive → ∀ ended, (r.connection.isEnded = true → ended = true) →
    before ended = ⟨inbound r.events, r.outcome⟩

variable {before : Bool → Reading}

@[simp] theorem inbound_frames {id : ConnectionId} {stream : Bytes} {ended : Bool} :
    inbound (Reading.frames id max stream ended).events =
      (Reading.frames id max stream ended).events := TransportEvent.inbound_received

/-- Nothing comes behind the end of the stream, so it does not matter that it is heeded as soon as
it is seen. -/
theorem explains_frames (hc : c.Intact coming) (hphase : c.phase = .connected)
    (hreceiver : c.receiverEnabled = true) (hread : c.incoming = [])
    (hbefore : ∀ ended, before ended =
      (c.reading max (c.ahead ++ coming) ended).after (inbound events)) :
    Explains before max coming (c.deliverFrames max events) := by
  have hahead : c.ahead = c.readBuffer := by rw [ahead, hread, List.append_nil]
  rw [reading_connected hphase, hahead] at hbefore
  rw [deliverFrames_eq hphase hreceiver]
  constructor
  · intro halive ended
    have hclosed : c.peerClosed = false := Reading.frames_alive (c := c.id) halive
    have hrest : (c.drained max).ahead = (c.drained max).readBuffer := by
      change _ ++ c.incoming = _
      rw [hread, List.append_nil]
    rw [hclosed] at halive ⊢
    rw [hbefore, Reading.frames_append halive, hrest,
      reading_connected (c := c.drained max) hphase]
    simp [drained]
  · intro hover ended hended
    rw [hbefore, Reading.frames_over hover]
    · simp [Reading.after]
    · intro hclosed
      obtain ⟨hsocket, -⟩ := hc.closed hclosed
      exact ⟨hc.ended hsocket, hended hsocket⟩

theorem deliverFrames_waiting (hidle : ¬ (c.phase = .connected ∧ c.receiverEnabled = true)) :
    c.deliverFrames max events = ⟨c, events,
      if c.peerClosed = true ∧ c.phase ≠ .connected then .error .handshakeIncomplete
      else .ok .alive⟩ := by
  simp only [deliverFrames, Bool.and_eq_true, decide_eq_true_eq, if_neg hidle]
  split <;> rfl

/-- No event comes of waiting for a handshake, nor of frames that are not wanted. -/
theorem explains_waiting (hc : c.Intact coming)
    (hidle : ¬ (c.phase = .connected ∧ c.receiverEnabled = true))
    (hgreet : c.phase ≠ .connected → Handshake.front c.readBuffer = .incomplete)
    (hbefore : ∀ ended, before ended =
      (c.reading max (c.ahead ++ coming) ended).after (inbound events)) :
    Explains before max coming (c.deliverFrames max events) := by
  rw [deliverFrames_waiting hidle]
  constructor
  · exact fun _ => hbefore
  · intro hover ended hended
    by_cases hclosed : c.peerClosed = true ∧ c.phase ≠ .connected
    · obtain ⟨hpeer, hphase⟩ := hclosed
      obtain ⟨hsocket, hread⟩ := hc.closed hpeer
      rw [hbefore, hended hsocket, hc.ended hsocket, List.append_nil, ahead, hread,
        List.append_nil, reading_incomplete hphase (hgreet hphase)]
      simp [Reading.after, hpeer, hphase]
    · rw [if_neg hclosed] at hover
      exact (hover rfl).elim

/-- What `processInbound` attends to first. A socket is read as long as its bytes are wanted. -/
def refreshed (c : Connection) : Connection :=
  if (c.phase ≠ .connected || c.receiverEnabled) && !c.peerClosed then c.readSocket else c

theorem processInbound_eq (hsocket : c.isLoopback = false) (hdialed : c.key.isSome = true) :
    c.processInbound max =
      if c.phase ≠ .connected then
        match c.refreshed.advanceHandshake with
        | .error e => ⟨c.refreshed, [], .error e⟩
        | .ok (c', events) => c'.deliverFrames max events
      else c.refreshed.deliverFrames max [] := by
  cases hlink : c.link with
  | loopback _ _ => simp [isLoopback, hlink] at hsocket
  | socket s =>
    have hphase : c.refreshed.phase = c.phase := by
      unfold refreshed readSocket
      split
      · rw [hlink]
      · rfl
    have hkey : c.key.isNone = false := by
      rw [← Option.not_isSome, hdialed]
      rfl
    simp only [processInbound, hlink, hkey, Bool.false_eq_true, if_false]
    change (if c.refreshed.phase ≠ .connected then _ else _) = _
    rw [hphase]
    rfl

theorem refreshed_frame (hc : c.Intact coming) : c.refreshed.Intact coming ∧
    c.refreshed.ahead = c.ahead ∧ c.refreshed.isEnded = c.isEnded ∧
    (c.phase ≠ .connected ∨ c.receiverEnabled = true →
      c.refreshed.incoming = [] ∧ c.refreshed.peerClosed = c.isEnded) := by
  obtain ⟨hread, hahead, hended, hpeer, hsocket⟩ := readSocket_frame hc.socket
  unfold refreshed
  split
  · refine ⟨⟨hsocket, ?_, ?_, ?_⟩, hahead, hended, fun _ => ⟨hread, hpeer⟩⟩
    · unfold readSocket
      split <;> exact hc.dialed
    · rw [hended]
      exact hc.ended
    · intro hclosed
      rw [hpeer] at hclosed
      exact ⟨hended.trans hclosed, hread⟩
  · rename_i hskip
    refine ⟨hc, rfl, rfl, fun hwanted => ?_⟩
    have hclosed : c.peerClosed = true := by
      rcases hwanted with hphase | hreceiver <;> simp_all
    obtain ⟨hended, hread⟩ := hc.closed hclosed
    exact ⟨hread, hclosed.trans hended.symm⟩

theorem refreshed_same : c.refreshed.reading = c.reading ∧ c.refreshed.phase = c.phase ∧
    c.refreshed.receiverEnabled = c.receiverEnabled := by
  unfold refreshed
  split
  · refine ⟨reading_readSocket, ?_⟩
    unfold readSocket
    split <;> exact ⟨rfl, rfl⟩
  · exact ⟨rfl, rfl, rfl⟩

/-- `c'` is what `c` has become when it is about to report frames, after `events`. -/
structure Poised (c c' : Connection) (max : Nat) (coming : Bytes) (events : List TransportEvent) :
    Prop where
  intact : c'.Intact coming
  ended : c'.isEnded = c.isEnded
  receiver : c'.receiverEnabled = c.receiverEnabled
  greet : c'.phase ≠ .connected → Handshake.front c'.readBuffer = .incomplete
  read : c'.phase ≠ .connected ∨ c'.receiverEnabled = true →
    c'.incoming = [] ∧ c'.peerClosed = c'.isEnded
  reading : ∀ ended, c.reading max (c.ahead ++ coming) ended =
    (c'.reading max (c'.ahead ++ coming) ended).after (inbound events)

theorem poised_greeted (hc : c.Intact coming) (hphase : c.phase ≠ .connected)
    (hincoming : c.incoming = []) (hpeer : c.peerClosed = c.isEnded) {peer : Proc} {rest : Bytes}
    (hfront : Handshake.front c.readBuffer = .identity peer rest)
    (hgreet : c.greeting peer = .ok events) :
    Poised c (c.greeted peer rest).signalReady.1 max coming
      (events ++ (c.greeted peer rest).signalReady.2) := by
  have hsame := receiving_signalReady (c := c.greeted peer rest)
  have hreceiver : (c.greeted peer rest).signalReady.1.receiverEnabled = c.receiverEnabled :=
    receiverEnabled_signalReady
  have hgreeted : (c.greeted peer rest).Intact coming :=
    ⟨hc.socket, hc.dialed, hc.ended, hc.closed⟩
  have hintact := hgreeted.congr hsame
  obtain ⟨-, hahead, hincoming', hended'⟩ := receiving_congr hsame
  generalize hc' : (c.greeted peer rest).signalReady.1 = c' at *
  have hconnected : c'.phase = .connected := congrArg (·.phase) hsame
  have hpeer' : c'.peerClosed = c.peerClosed := congrArg (·.peerClosed) hsame
  have hbuffer : c'.ahead = rest := by
    rw [hahead]
    change rest ++ c.incoming = rest
    rw [hincoming, List.append_nil]
  refine ⟨hintact, hended', hreceiver, fun h => (h hconnected).elim, ?_, ?_⟩
  · exact fun _ => ⟨hincoming'.trans hincoming, hpeer'.trans (hpeer.trans hended'.symm)⟩
  · intro ended
    have hid : c'.id = c.id := congrArg (·.id) hsame
    have hall : c.ahead = c.readBuffer := by rw [ahead, hincoming, List.append_nil]
    rw [hall, reading_connected hconnected, hbuffer, hid, TransportEvent.inbound_append,
      inbound_greeting hgreet, inbound_signalReady, List.append_nil]
    simp only [Connection.reading, if_neg hphase, Handshake.front_append_identity hfront, hgreet]

/-- A connection that needs no handshake, or still waits for one, reports what there is. -/
theorem poised_self (hc : c.Intact coming)
    (hgreet : c.phase ≠ .connected → Handshake.front c.readBuffer = .incomplete)
    (hread : c.phase ≠ .connected ∨ c.receiverEnabled = true →
      c.incoming = [] ∧ c.peerClosed = c.isEnded) : Poised c c max coming [] :=
  ⟨hc, rfl, rfl, hgreet, hread, fun _ => rfl⟩

theorem Poised.of_refreshed (hc : c.Intact coming)
    (h : Poised c.refreshed c' max coming events) : Poised c c' max coming events := by
  obtain ⟨-, hahead, hended, -⟩ := refreshed_frame hc
  obtain ⟨hreading, -, hreceiver⟩ := refreshed_same (c := c)
  refine ⟨h.intact, h.ended.trans hended, h.receiver.trans hreceiver, h.greet, h.read, ?_⟩
  rw [← hreading, ← hahead]
  exact h.reading

/-- Either the handshake fails or all comes down to reporting frames. -/
theorem processInbound_cases (hc : c.Intact coming) :
    (∃ e, c.processInbound max = ⟨c.refreshed, [], .error e⟩ ∧
      ∀ ended, c.reading max (c.ahead ++ coming) ended = ⟨[], .error e⟩) ∨
    ∃ c' events, c.processInbound max = c'.deliverFrames max events ∧
      Poised c c' max coming events := by
  obtain ⟨hintact, hahead, hended, hread⟩ := refreshed_frame hc
  obtain ⟨hreading, hphase, hreceiver⟩ := refreshed_same (c := c)
  rw [← hphase, ← hreceiver, ← hended] at hread
  rw [processInbound_eq hc.socket hc.dialed]
  by_cases hgreeted : c.phase = .connected
  · rw [if_neg (not_not_intro hgreeted)]
    have hpoised : Poised c.refreshed c.refreshed max coming [] :=
      poised_self hintact (fun h => (h (hphase.trans hgreeted)).elim) hread
    exact .inr ⟨c.refreshed, [], rfl, hpoised.of_refreshed hc⟩
  · have hunread : c.refreshed.phase ≠ .connected := by rwa [hphase]
    obtain ⟨hincoming, hpeer⟩ := hread (.inl hunread)
    have hall : c.ahead = c.refreshed.readBuffer := by
      rw [← hahead, ahead, hincoming, List.append_nil]
    rw [if_pos hgreeted, advanceHandshake_eq hunread, ← hreading, hall]
    cases hfront : Handshake.front c.refreshed.readBuffer with
    | incomplete =>
      have hpoised : Poised c.refreshed c.refreshed max coming [] :=
        poised_self hintact (fun _ => hfront) hread
      exact .inr ⟨c.refreshed, [], rfl, hpoised.of_refreshed hc⟩
    | invalid e rest =>
      refine .inl ⟨_, rfl, fun ended => ?_⟩
      simp only [Connection.reading, if_neg hunread,
        Handshake.front_append_invalid hfront]
    | identity peer rest =>
      cases hgreet : c.refreshed.greeting peer with
      | error e =>
        refine .inl ⟨e, by simp only [hgreet], fun ended => ?_⟩
        simp only [Connection.reading, if_neg hunread,
          Handshake.front_append_identity hfront, hgreet]
      | ok events =>
        have hpoised : Poised c.refreshed (c.refreshed.greeted peer rest).signalReady.1 max coming
            (events ++ (c.refreshed.greeted peer rest).signalReady.2) :=
          poised_greeted hintact hunread hincoming hpeer hfront hgreet
        refine .inr ⟨(c.refreshed.greeted peer rest).signalReady.1,
          events ++ (c.refreshed.greeted peer rest).signalReady.2, ?_, hpoised.of_refreshed hc⟩
        simp only [hgreet]

theorem deliverFrames_frame (hc : c.Intact coming) (max : Nat) (events : List TransportEvent) :
    (c.deliverFrames max events).connection.receiverEnabled = c.receiverEnabled ∧
      (c.deliverFrames max events).connection.isEnded = c.isEnded ∧
      (c.deliverFrames max events).connection.Intact coming := by
  by_cases hwanted : c.phase = .connected ∧ c.receiverEnabled = true
  · obtain ⟨hphase, hreceiver⟩ := hwanted
    rw [deliverFrames_eq hphase hreceiver]
    exact ⟨rfl, rfl, hc.socket, hc.dialed, hc.ended, hc.closed⟩
  · rw [deliverFrames_waiting hwanted]
    exact ⟨rfl, rfl, hc⟩

/-- What is reported, and what becomes of the connection, is what reading at once would lead to, as
far as bytes have come in. -/
theorem explains_processInbound (hc : c.Intact coming) :
    Explains (c.reading max (c.ahead ++ coming)) max coming (c.processInbound max) := by
  rcases processInbound_cases hc with ⟨e, hfails, hreading⟩ | ⟨c', events, hframes, hpoised⟩
  · rw [hfails]
    exact ⟨fun h => (nomatch h), fun _ ended _ => hreading ended⟩
  · rw [hframes]
    by_cases hwanted : c'.phase = .connected ∧ c'.receiverEnabled = true
    · exact explains_frames hpoised.intact hwanted.1 hwanted.2 (hpoised.read (.inr hwanted.2)).1
        hpoised.reading
    · exact explains_waiting hpoised.intact hwanted hpoised.greet hpoised.reading

theorem processInbound_frame (hc : c.Intact coming) :
    (c.processInbound max).connection.receiverEnabled = c.receiverEnabled ∧
      (c.processInbound max).connection.isEnded = c.isEnded ∧
      (c.processInbound max).connection.Intact coming := by
  rcases processInbound_cases hc with ⟨e, hfails, -⟩ | ⟨c', events, hframes, hpoised⟩
  · obtain ⟨hintact, -, hended, -⟩ := refreshed_frame hc
    rw [hfails]
    exact ⟨refreshed_same.2.2, hended, hintact⟩
  · obtain ⟨hreceiver, hended, hintact⟩ := deliverFrames_frame hpoised.intact max events
    rw [hframes]
    exact ⟨hreceiver.trans hpoised.receiver, hended.trans hpoised.ended, hintact⟩

/-- A connection that goes on, its frames being wanted, has read all that is there, and that is
not the end of the stream. -/
theorem processInbound_idle (hc : c.Intact coming) (hreceiver : c.receiverEnabled = true)
    (halive : (c.processInbound max).outcome = .ok .alive) :
    let c' := (c.processInbound max).connection
    c'.reading max c'.ahead c'.isEnded = ⟨[], .ok .alive⟩ := by
  rcases processInbound_cases hc with ⟨e, hfails, -⟩ | ⟨c', events, hframes, hpoised⟩
  · rw [hfails] at halive
    cases halive
  · obtain ⟨hread, hpeer⟩ := hpoised.read (.inr (hpoised.receiver.trans hreceiver))
    rw [hframes] at halive ⊢
    by_cases hphase : c'.phase = .connected
    · have hwanted := hpoised.receiver.trans hreceiver
      rw [deliverFrames_eq hphase hwanted] at halive ⊢
      have hclosed : c'.peerClosed = false := Reading.frames_alive (c := c'.id) halive
      have hended : (c'.drained max).isEnded = false := hpeer.symm.trans hclosed
      have hrest : (c'.drained max).ahead = (c'.drained max).readBuffer := by
        change _ ++ c'.incoming = _
        rw [hread, List.append_nil]
      rw [hclosed] at halive
      change (c'.drained max).reading max (c'.drained max).ahead (c'.drained max).isEnded = _
      rw [hended, hrest, reading_connected (c := c'.drained max) hphase]
      exact Reading.frames_rest halive
    · rw [deliverFrames_waiting (fun h => hphase h.1)] at halive ⊢
      have hclosed : c'.peerClosed = false := by
        cases hclosed : c'.peerClosed with
        | false => rfl
        | true =>
          rw [if_pos ⟨hclosed, hphase⟩] at halive
          cases halive
      have hrest : c'.ahead = c'.readBuffer := by rw [ahead, hread, List.append_nil]
      change c'.reading max c'.ahead c'.isEnded = _
      rw [← hpeer, hclosed, hrest, reading_incomplete hphase (hpoised.greet hphase)]
      rfl

theorem Explains.congr {r r' : Serviced} {coming' : Bytes} (h : Explains before max coming r)
    (houtcome : r'.outcome = r.outcome) (hevents : inbound r'.events = inbound r.events)
    (hreading : r'.connection.reading = r.connection.reading)
    (hahead : r'.connection.ahead ++ coming' = r.connection.ahead ++ coming)
    (hended : r.connection.isEnded = true → r'.connection.isEnded = true) :
    Explains before max coming' r' := by
  constructor
  · intro halive ended
    rw [hreading, hahead, hevents]
    exact h.going (houtcome ▸ halive) ended
  · intro hover ended hlast
    rw [houtcome, hevents]
    exact h.finished (houtcome ▸ hover) ended fun hbefore => hlast (hended hbefore)

/-- To read on from where a connection has got to is to read on in the whole stream. -/
theorem Explains.trans {r : Serviced} (h : Explains before max coming ⟨c, events, .ok .alive⟩)
    (hr : Explains (c.reading max (c.ahead ++ coming)) max coming r) :
    Explains before max coming ⟨r.connection, events ++ r.events, r.outcome⟩ := by
  constructor
  · intro halive ended
    rw [h.going rfl ended, hr.going halive ended]
    simp
  · intro hover ended hlast
    rw [h.going rfl ended, hr.finished hover ended hlast]
    simp [Reading.after]

theorem reading_events {stream : Bytes} (ended ended' : Bool) :
    (c.reading max stream ended).events = (c.reading max stream ended').events := by
  unfold reading
  split
  · rfl
  · split
    · rfl
    · rfl
    · split <;> rfl

/-- What happens to the socket of a connection, if it has one. -/
def onSocket (c : Connection) (f : Socket → Socket) : Connection :=
  match c.link with
  | .socket s => { c with link := .socket (f s) }
  | .loopback _ _ => c

theorem link_of_socket (h : c.isLoopback = false) : ∃ s, c.link = .socket s := by
  cases hlink : c.link with
  | socket s => exact ⟨s, rfl⟩
  | loopback _ _ => simp [isLoopback, hlink] at h

end Connection

end Multicast
