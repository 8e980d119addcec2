import Multicast.Proofs.Net.Inbound

/-! A connection that is up in both directions. To attend to it moves bytes, takes frames off the
stream that comes in, and asks for messages one at a time. -/
namespace Multicast

namespace TransportEvent

/-- Whether an event asks for a message on `c` or reports a frame from it. -/
def IsTraffic (c : ConnectionId) (event : TransportEvent) : Prop :=
  event = .ready c ∨ ∃ payload, event = .received c payload

/-- How many messages are asked for. -/
def asks (events : List TransportEvent) : Nat := (events.filter (·.isReady)).length

/-- The frames that are reported. -/
def payloads (events : List TransportEvent) : List Bytes :=
  events.filterMap fun
    | .received _ payload => some payload
    | _ => none

variable {events more : List TransportEvent} {c : ConnectionId} {k : Nat} {frames : List Bytes}

theorem asks_append : asks (events ++ more) = asks events + asks more := by
  simp [asks]

theorem payloads_append : payloads (events ++ more) = payloads events ++ payloads more :=
  List.filterMap_append ..

theorem asks_received : asks (frames.map (.received c)) = 0 := by
  simp [asks, isReady]

theorem payloads_received : payloads (frames.map (.received c)) = frames := by
  rw [payloads, List.filterMap_map]
  exact List.filterMap_some

end TransportEvent

open TransportEvent (IsTraffic asks payloads)

namespace Connection

/-- Bytes that were written and not carried away. -/
def outgoing (c : Connection) : Bytes :=
  match c.link with
  | .socket s => s.outgoing
  | .loopback _ _ => []

/-- Bytes that were written and not carried away, and those that are still to be written. -/
def output (c : Connection) : Bytes :=
  match c.link with
  | .socket s => s.outgoing ++ c.writeBuffer
  | .loopback _ _ => []

/-- A connection that is up in both directions and has no complete frame in its buffer. -/
structure Steady (max : Nat) (c : Connection) : Prop where
  link : ∃ s, c.link = .socket s ∧ s.shut = false ∧ s.ended = false
  phase : c.phase = .connected
  dialed : c.key.isSome = true
  sender : c.senderEnabled = true
  receiver : c.receiverEnabled = true
  closing : c.closing = false
  peerClosed : c.peerClosed = false
  /-- A message is asked for only when the slot is free. -/
  asked : c.readySignalled = true → c.slotOccupied = false
  read : Frame.front max c.readBuffer = .incomplete

/-- What comes in, with `more` that is still to come, are frames that the connection can take. -/
structure Expects (max : Nat) (more : Bytes) (frames : List Bytes) (c : Connection) : Prop where
  fit : ∀ f ∈ frames, f.length ≤ max
  bytes : c.ahead ++ more = frames.flatMap Frame.encode

/-- A connection goes on: it reports some events, and no byte is lost. -/
structure Goes (max : Nat) (c c' : Connection) (events : List TransportEvent) : Prop where
  steady : c'.Steady max
  id : c'.id = c.id
  output : c'.output = c.output
  ahead : c.ahead = (payloads events).flatMap Frame.encode ++ c'.ahead
  traffic : ∀ event ∈ events, IsTraffic c.id event
  asked : c'.readySignalled.toNat = c.readySignalled.toNat + asks events

variable {c c' c'' : Connection} {max : Nat} {events events' : List TransportEvent} {more : Bytes}
  {frames : List Bytes}

theorem output_eq (h : c.isLoopback = false) : c.output = c.outgoing ++ c.writeBuffer := by
  obtain ⟨s, hlink⟩ := link_of_socket h
  simp only [output, outgoing, hlink]

theorem link_onSocket {s : Socket} {f : Socket → Socket} (h : c.link = .socket s) :
    (c.onSocket f).link = .socket (f s) := by
  simp only [onSocket, h]

theorem output_onSocket {f : Socket → Socket} (h : ∀ s, (f s).outgoing = s.outgoing) :
    (c.onSocket f).output = c.output := by
  cases hlink : c.link <;> simp [onSocket, output, hlink, h]

theorem incoming_onSocket {f : Socket → Socket} (h : ∀ s, (f s).incoming = s.incoming) :
    (c.onSocket f).incoming = c.incoming := by
  cases hlink : c.link <;> simp [onSocket, incoming, hlink, h]

theorem ahead_onSocket {f : Socket → Socket} (h : ∀ s, (f s).incoming = s.incoming) :
    (c.onSocket f).ahead = c.ahead := by
  have hbuffer : (c.onSocket f).readBuffer = c.readBuffer := by
    unfold onSocket
    split <;> rfl
  rw [ahead, hbuffer, incoming_onSocket h, ahead]

/-- Bytes that are carried away. -/
theorem output_carried (count : Nat) : c.output =
    c.outgoing.take count ++
      (c.onSocket fun s => { s with outgoing := s.outgoing.drop count }).output := by
  cases hlink : c.link with
  | socket s =>
    simp only [onSocket, output, outgoing, hlink]
    rw [← List.append_assoc, List.take_append_drop]
  | loopback _ _ => simp [onSocket, output, outgoing, hlink]

/-- Bytes that arrive. -/
theorem ahead_carried {bytes : Bytes} (h : c.isLoopback = false) :
    (c.onSocket fun s => { s with incoming := s.incoming ++ bytes }).ahead = c.ahead ++ bytes := by
  obtain ⟨s, hlink⟩ := link_of_socket h
  simp [onSocket, ahead, incoming, hlink]

theorem Goes.trans (h : Goes max c c' events) (h' : Goes max c' c'' events') :
    Goes max c c'' (events ++ events') where
  steady := h'.steady
  id := h'.id.trans h.id
  output := h'.output.trans h.output
  ahead := calc
    c.ahead = (payloads events).flatMap Frame.encode ++ c'.ahead := h.ahead
    _ = (payloads events ++ payloads events').flatMap Frame.encode ++ c''.ahead := by
      rw [h'.ahead, List.flatMap_append, List.append_assoc]
    _ = (payloads (events ++ events')).flatMap Frame.encode ++ c''.ahead := by
      rw [TransportEvent.payloads_append]
  traffic event hevent := by
    rcases List.mem_append.mp hevent with hevent | hevent
    · exact h.traffic event hevent
    · exact h.id ▸ h'.traffic event hevent
  asked := by
    rw [h'.asked, h.asked, TransportEvent.asks_append, Nat.add_assoc]

theorem Steady.socket (hc : c.Steady max) : c.isLoopback = false := by
  obtain ⟨s, hlink, -⟩ := hc.link
  simp [isLoopback, hlink]

/-- Only what carries the bytes may change, and whether a message is asked for. -/
theorem Steady.update (hc : c.Steady max) {link : Link} {slotOccupied readySignalled : Bool}
    {readBuffer writeBuffer : Bytes}
    (hlink : ∃ s, link = .socket s ∧ s.shut = false ∧ s.ended = false)
    (hasked : readySignalled = true → slotOccupied = false)
    (hread : Frame.front max readBuffer = .incomplete) :
    Steady max { c with link, slotOccupied, readySignalled, readBuffer, writeBuffer } :=
  ⟨hlink, hc.phase, hc.dialed, hc.sender, hc.receiver, hc.closing, hc.peerClosed, hasked, hread⟩

/-- The slot is free, and a message is asked for unless it has been. -/
theorem goes_release (hc : c.Steady max) :
    ∃ c' events, c.release = (c', events) ∧ Goes max c c' events ∧ payloads events = [] := by
  have hfree : c.released = { c with slotOccupied := false } := by
    simp [released, hc.closing]
  have hphase := hc.phase
  rw [release_eq, hfree]
  cases hasked : c.readySignalled with
  | true =>
    refine ⟨{ c with slotOccupied := false }, [], ?_, ⟨?_, rfl, rfl, rfl,
      List.forall_mem_nil _, rfl⟩, rfl⟩
    · simp [signalReady, hasked]
    · exact hc.update hc.link (fun _ => rfl) hc.read
  | false =>
    refine ⟨{ c with slotOccupied := false, readySignalled := true }, [.ready c.id], ?_,
      ⟨?_, rfl, rfl, rfl, ?_, ?_⟩, rfl⟩
    · simp [signalReady, hc.phase, hc.sender, hc.closing]
    · exact hc.update hc.link (fun _ => rfl) hc.read
    · intro event hevent
      exact .inl (List.mem_singleton.mp hevent)
    · rw [hasked]
      rfl

theorem goes_written (hc : c.Steady max) {s : Socket} (hlink : c.link = .socket s) :
    Goes max c (c.written s) [] := by
  obtain ⟨s', hlink', hshut, hended⟩ := hc.link
  obtain rfl : s = s' := by
    rw [hlink] at hlink'
    exact Link.socket.inj hlink'
  refine ⟨?_, rfl, ?_, ?_, List.forall_mem_nil _, rfl⟩
  · exact hc.update ⟨_, rfl, hshut, hended⟩ hc.asked hc.read
  · simp [output, written, hlink]
  · simp [ahead, incoming, written, hlink, payloads]

/-- What is written is what was to be written. -/
theorem goes_flush (hc : c.Steady max) :
    ∃ c' events, c.flush = .ok (c', events) ∧ Goes max c c' events ∧ payloads events = [] := by
  obtain ⟨s, hlink, hshut, -⟩ := hc.link
  have hdialed : c.key.isNone = false := by
    rw [← Option.not_isSome, hc.dialed]
    rfl
  have hwritten := goes_written hc hlink
  rw [flush_socket hlink, hdialed, if_neg Bool.false_ne_true, hshut, if_neg Bool.false_ne_true]
  split
  · obtain ⟨c', events, hrelease, hgoes⟩ := goes_release hc
    exact ⟨c', events, congrArg Except.ok hrelease, hgoes⟩
  · split
    · obtain ⟨c', events, hrelease, hgoes, hnone⟩ := goes_release hwritten.steady
      exact ⟨c', events, congrArg Except.ok hrelease, hwritten.trans hgoes, hnone⟩
    · exact ⟨c.written s, [], rfl, hwritten, rfl⟩

theorem refreshed_steady (hc : c.Steady max) : c.refreshed = c.readSocket := by
  rw [refreshed, hc.receiver, hc.peerClosed]
  simp

/-- All that has come in is read, and the complete frames are reported. -/
theorem goes_processInbound (hc : c.Steady max) (hmax : max < UInt32.size)
    (hframes : c.Expects max more frames) : ∃ c' events later,
      c.processInbound max = ⟨c', events, .ok .alive⟩ ∧ Goes max c c' events ∧
      frames = payloads events ++ later ∧ c'.Expects max more later := by
  obtain ⟨s, hlink, hshut, hended⟩ := hc.link
  let r : Connection := { c with
    link := .socket { s with incoming := [] }, readBuffer := c.ahead, peerClosed := false }
  have hread : c.readSocket = r := by
    simp [readSocket, hlink, hended, r, ahead, incoming]
  obtain ⟨hlarge, later, hlater, hmore⟩ := Frame.decodeAll_of_frames hmax hframes.fit hframes.bytes
  obtain ⟨hbuffer, -, hstuck⟩ := Frame.decodeAll_spec max c.ahead
  rw [hlarge] at hstuck
  have halive : (Reading.frames r.id max r.readBuffer r.peerClosed).outcome = .ok .alive := by
    simp [Reading.frames, r, hlarge]
  refine ⟨r.drained max, (Frame.decodeAll max c.ahead).frames.map (.received c.id), later,
    ?_, ?_, ?_, ?_⟩
  · rw [processInbound_eq hc.socket hc.dialed, if_neg (not_not_intro hc.phase),
      refreshed_steady hc, hread, deliverFrames_eq (c := r) hc.phase hc.receiver]
    simp only [halive, List.nil_append]
    rfl
  · have hrest : (r.drained max).ahead = (Frame.decodeAll max c.ahead).rest := by
      simp [ahead, incoming, drained, r]
    refine ⟨?_, rfl, ?_, ?_, ?_, ?_⟩
    · exact ⟨⟨_, rfl, hshut, hended⟩, hc.phase, hc.dialed, hc.sender, hc.receiver, hc.closing,
        rfl, hc.asked, hstuck⟩
    · simp [output, drained, r, hlink]
    · rw [TransportEvent.payloads_received, hrest]
      exact hbuffer
    · intro event hevent
      obtain ⟨payload, -, rfl⟩ := List.mem_map.mp hevent
      exact .inr ⟨payload, rfl⟩
    · rw [TransportEvent.asks_received]
      rfl
  · rw [TransportEvent.payloads_received]
    exact hlater
  · refine ⟨fun f hf => hframes.fit f (hlater ▸ List.mem_append_right _ hf), ?_⟩
    rw [← hmore]
    simp [ahead, incoming, drained, r]

theorem Expects.same (h : c.Expects max more frames) (hahead : c'.ahead = c.ahead) :
    c'.Expects max more frames := ⟨h.fit, hahead ▸ h.bytes⟩

/-- Attending to a connection reports the next of the frames that are expected. -/
theorem goes_service (hc : c.Steady max) (hmax : max < UInt32.size)
    (hframes : c.Expects max more frames) : ∃ c' events later,
      c.service max = ⟨c', events, .ok .alive⟩ ∧ Goes max c c' events ∧
      frames = payloads events ++ later ∧ c'.Expects max more later := by
  obtain ⟨c₁, written, hflush, hgoes, hnone⟩ := goes_flush hc
  have hframes₁ : c₁.Expects max more frames := hframes.same (by rw [hgoes.ahead, hnone]; rfl)
  obtain ⟨c₂, read, later, hinbound, hgoes', hlater, hframes₂⟩ :=
    goes_processInbound hgoes.steady hmax hframes₁
  obtain ⟨c₃, asking, hflush', hgoes'', hnone'⟩ := goes_flush hgoes'.steady
  have hdial : c.finishDial = .ok c := by simp [finishDial, hc.dialed]
  have hdialed : c.isDialed = true := by simp [isDialed, hc.dialed]
  refine ⟨c₃, written ++ read ++ asking, later, ?_, (hgoes.trans hgoes').trans hgoes'', ?_, ?_⟩
  · simp [service, hdial, hdialed, hflush, hinbound, hflush']
  · simp [TransportEvent.payloads_append, hnone, hnone', hlater]
  · exact hframes₂.same (by rw [hgoes''.ahead, hnone']; rfl)

/-- A message is taken if it fits and was asked for. -/
theorem setMessage_steady (hc : c.Steady max) (hasked : c.readySignalled = true) (payload : Bytes) :
    (max < payload.length ∧ c.setMessage payload max = .error (.frameTooLarge payload.length max)) ∨
    (payload.length ≤ max ∧ ∃ c', c.setMessage payload max = .ok c' ∧ c'.Steady max ∧
      c'.id = c.id ∧ c'.readySignalled = false ∧ c'.ahead = c.ahead ∧
      c'.output = c.output ++ Frame.encode payload) := by
  obtain ⟨s, hlink, -⟩ := hc.link
  have hfree : c.slotOccupied = false := hc.asked hasked
  rw [setMessage, hfree, if_neg Bool.false_ne_true, if_neg (not_not_intro hc.phase)]
  by_cases hfits : max < payload.length
  · exact .inl ⟨hfits, if_pos hfits⟩
  · refine .inr ⟨Nat.le_of_not_lt hfits, { c with
      slotOccupied := true
      readySignalled := false
      writeBuffer := c.writeBuffer ++ Frame.encode payload }, ?_, ?_, rfl, rfl, rfl, ?_⟩
    · rw [if_neg hfits]
      simp only [hlink]
    · exact hc.update hc.link nofun hc.read
    · simp [output, hlink]

end Connection

end Multicast
