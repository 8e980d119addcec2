import Multicast.Proofs.Net.Steady

/-! What comes of attending to a connection while it is introduced to its peer: it writes, reads the
identity of the peer once it is there, and leaves what comes behind it unread. -/
namespace Multicast
open TransportEvent (inbound)

namespace Connection

variable {c c' c'' d : Connection} {max : Nat} {written events more : List TransportEvent}
  {peer : Proc} {rest : Bytes} {s : Socket}

/-- The connection once it has noted that the dial has come to an end, if it has. -/
def opened (c : Connection) : Connection :=
  match c.finishDial with
  | .ok c => c
  | .error _ => c

/-- A connection over a socket that is not being closed, and of which no frames are wanted. It has
not read all of the peer's identity unless it has been introduced. -/
structure Quiet (c : Connection) : Prop where
  link : ∃ s, c.link = .socket s ∧ s.shut = false ∧ s.dial ≠ .failed
  receiver : c.receiverEnabled = false
  closing : c.closing = false
  peerClosed : c.peerClosed = false
  waits : c.phase ≠ .connected → Handshake.front c.readBuffer = .incomplete

/-- A connection goes on, and has not met its peer meanwhile. -/
structure Continues (c c' : Connection) : Prop where
  quiet : c'.Quiet
  id : c'.id = c.id
  here : c'.here = c.here
  remote : c'.remote = c.remote
  phase : c'.phase = c.phase
  key : c.key.isSome = true → c'.key = c.key
  ended : c'.isEnded = c.isEnded

/-- No byte is lost either. -/
structure Keeps (c c' : Connection) : Prop extends Continues c c' where
  output : c'.output = c.output
  ahead : c'.ahead = c.ahead

theorem Keeps.refl (hc : c.Quiet) : Keeps c c :=
  ⟨⟨hc, rfl, rfl, rfl, rfl, fun _ => rfl, rfl⟩, rfl, rfl⟩

theorem Keeps.trans (h : Keeps c c') (h' : Keeps c' c'') : Keeps c c'' where
  quiet := h'.quiet
  id := h'.id.trans h.id
  here := h'.here.trans h.here
  remote := h'.remote.trans h.remote
  phase := h'.phase.trans h.phase
  key hkey := (h'.key (by rw [h.key hkey]; exact hkey)).trans (h.key hkey)
  ended := h'.ended.trans h.ended
  output := h'.output.trans h.output
  ahead := h'.ahead.trans h.ahead

theorem Quiet.socket (hc : c.Quiet) : c.isLoopback = false := by
  obtain ⟨s, hlink, -⟩ := hc.link
  simp [isLoopback, hlink]

/-- When messages are asked for and taken does not matter. -/
theorem Quiet.keeps (hc : c.Quiet) {senderEnabled slotOccupied readySignalled : Bool} :
    Keeps c { c with senderEnabled, slotOccupied, readySignalled } :=
  ⟨⟨⟨hc.link, hc.receiver, hc.closing, hc.peerClosed, hc.waits⟩, rfl, rfl, rfl, rfl,
    fun _ => rfl, rfl⟩, rfl, rfl⟩

theorem keeps_signalReady (hc : c.Quiet) : Keeps c c.signalReady.1 := by
  unfold signalReady
  split
  · exact hc.keeps
  · exact Keeps.refl hc

theorem keeps_release (hc : c.Quiet) : Keeps c c.release.1 := by
  have hfree : c.released = { c with slotOccupied := false } := by
    simp [released, hc.closing]
  have hkeeps : Keeps c c.released := by
    rw [hfree]
    exact hc.keeps
  rw [release_eq]
  exact hkeeps.trans (keeps_signalReady hkeeps.quiet)

theorem keeps_written (hc : c.Quiet) (hlink : c.link = .socket s) : Keeps c (c.written s) := by
  obtain ⟨s', hlink', hshut, hdial⟩ := hc.link
  obtain rfl : s = s' := Link.socket.inj (hlink.symm.trans hlink')
  refine ⟨⟨⟨⟨_, rfl, hshut, hdial⟩, hc.receiver, hc.closing, hc.peerClosed, hc.waits⟩, rfl, rfl,
    rfl, rfl, fun _ => rfl, ?_⟩, ?_, ?_⟩
  · simp [isEnded, written, hlink]
  · simp [output, written, hlink]
  · simp [ahead, incoming, written, hlink]

theorem keeps_flush (hc : c.Quiet) (hkey : c.key.isSome = true) :
    ∃ c' events, c.flush = .ok (c', events) ∧ Keeps c c' ∧ inbound events = [] := by
  obtain ⟨s, hlink, hshut, -⟩ := hc.link
  have hdialed : c.key.isNone = false := by
    rw [← Option.not_isSome, hkey]
    rfl
  have hwritten := keeps_written hc hlink
  rw [flush_socket hlink, hdialed, if_neg Bool.false_ne_true, hshut, if_neg Bool.false_ne_true]
  split
  · exact ⟨_, _, rfl, keeps_release hc, inbound_release⟩
  · split
    · exact ⟨_, _, rfl, hwritten.trans (keeps_release hwritten.quiet), inbound_release⟩
    · exact ⟨_, _, rfl, hwritten, rfl⟩

/-! ### Room -/

/-- A connection that never has to wait to write. -/
structure Free (c : Connection) : Prop where
  dialed : c.key.isSome = true
  link : ∃ s, c.link = .socket s ∧ s.room = none

theorem Free.signalReady (hc : c.Free) : c.signalReady.1.Free := by
  unfold Connection.signalReady
  split
  · exact ⟨hc.dialed, hc.link⟩
  · exact hc

theorem Free.released (hc : c.Free) : c.released.Free := by
  obtain ⟨s, hlink, hroom⟩ := hc.link
  unfold Connection.released
  split
  · exact ⟨hc.dialed, { s with shut := true }, by simp only [hlink], hroom⟩
  · exact ⟨hc.dialed, hc.link⟩

theorem writeBuffer_signalReady : c.signalReady.1.writeBuffer = c.writeBuffer := by
  unfold signalReady
  split <;> rfl

theorem Free.release (hc : c.Free) (hempty : c.writeBuffer = [])
    (h : c.release = (c', events)) : c'.Free ∧ c'.writeBuffer = [] := by
  have hreleased : c.released.writeBuffer = c.writeBuffer := by
    unfold Connection.released
    split <;> rfl
  have hc' : c' = c.released.signalReady.1 := by rw [← release_eq, h]
  rw [hc', writeBuffer_signalReady, hreleased]
  exact ⟨hc.released.signalReady, hempty⟩

/-- Everything is written. -/
theorem Free.flush (hc : c.Free) (h : c.flush = .ok (c', events)) :
    c'.Free ∧ c'.writeBuffer = [] := by
  obtain ⟨s, hlink, hroom⟩ := hc.link
  have hempty : (c.written s).writeBuffer = [] := by simp [written, hroom]
  have hwritten : (c.written s).Free := ⟨hc.dialed, _, rfl, by simp [hroom]⟩
  have hdialed : c.key.isNone = false := by
    rw [← Option.not_isSome, hc.dialed]
    rfl
  rw [flush_socket hlink, hdialed, if_neg Bool.false_ne_true, if_pos hempty] at h
  split at h
  · rename_i hnone
    exact hc.release hnone (Except.ok.inj h)
  · split at h
    · cases h
    · exact hwritten.release hempty (Except.ok.inj h)

/-! ### Reading -/

theorem readSocket_link (hlink : c.link = .socket s) : c.readSocket = { c with
    link := .socket { s with incoming := [] }, readBuffer := c.ahead, peerClosed := s.ended } := by
  simp [readSocket, hlink, ahead, incoming]

theorem Free.readSocket (hc : c.Free) : c.readSocket.Free := by
  obtain ⟨s, hlink, hroom⟩ := hc.link
  rw [readSocket_link hlink]
  exact ⟨hc.dialed, _, rfl, hroom⟩

theorem Free.greeted (hc : c.Free) : (c.greeted peer rest).Free := ⟨hc.dialed, hc.link⟩

/-- The bytes that have come in are read, and the identity is not complete. -/
theorem keeps_readSocket (hc : c.Quiet) (hended : c.isEnded = false)
    (hfront : Handshake.front c.ahead = .incomplete) : Keeps c c.readSocket := by
  obtain ⟨s, hlink, hshut, hdial⟩ := hc.link
  have hend : s.ended = false := by simpa [isEnded, hlink] using hended
  rw [readSocket_link hlink, hend]
  refine ⟨⟨⟨⟨_, rfl, hshut, hdial⟩, hc.receiver, hc.closing, rfl, fun _ => hfront⟩, rfl, rfl, rfl,
    rfl, fun _ => rfl, ?_⟩, ?_, ?_⟩
  · simp [isEnded, hlink, hend]
  · simp [output, hlink]
  · simp [ahead, incoming]

/-- What a connection leaves behind that breaks while it waits for the identity of its peer. -/
structure Rests (c c' : Connection) : Prop where
  phase : c'.phase = c.phase
  output : c'.output = c.output
  ahead : c'.ahead = c.ahead

theorem rests_readSocket (hc : c.Quiet) (h : Keeps d c) : Rests d c.readSocket := by
  obtain ⟨s, hlink, -⟩ := hc.link
  rw [readSocket_link hlink]
  refine ⟨h.phase, ?_, ?_⟩
  · rw [← h.output]
    simp [output, hlink]
  · rw [← h.ahead]
    simp [ahead, incoming]

/-- A connection lets the peer in. Whoever dialed answers. -/
structure Meets (c c' : Connection) (peer : Proc) (rest : Bytes) : Prop where
  quiet : c'.Quiet
  id : c'.id = c.id
  here : c'.here = c.here
  remote : c'.remote = some peer
  phase : c'.phase = .connected
  key : c'.key = c.key
  output : c'.output = c.output ++ if c.phase = .connecting then Handshake.encode c.here else []
  ahead : c'.ahead = rest
  ended : c'.isEnded = c.isEnded

theorem Meets.after_keeps (hkey : c.key.isSome = true) (h : Keeps c d) (h' : Meets d c' peer rest) :
    Meets c c' peer rest where
  quiet := h'.quiet
  id := h'.id.trans h.id
  here := h'.here.trans h.here
  remote := h'.remote
  phase := h'.phase
  key := h'.key.trans (h.key hkey)
  output := by rw [h'.output, h.output, h.phase, h.here]
  ahead := h'.ahead
  ended := h'.ended.trans h.ended

theorem Meets.then_keeps (hkey : c.key.isSome = true) (h : Meets c d peer rest) (h' : Keeps d c') :
    Meets c c' peer rest where
  quiet := h'.quiet
  id := h'.id.trans h.id
  here := h'.here.trans h.here
  remote := h'.remote.trans h.remote
  phase := h'.phase.trans h.phase
  key := (h'.key (by rw [h.key]; exact hkey)).trans h.key
  output := h'.output.trans h.output
  ahead := h'.ahead.trans h.ahead
  ended := h'.ended.trans h.ended

theorem meets_greeted (hc : c.Quiet) (hended : c.isEnded = false) :
    Meets c (c.readSocket.greeted peer rest) peer rest := by
  obtain ⟨s, hlink, hshut, hdial⟩ := hc.link
  have hend : s.ended = false := by simpa [isEnded, hlink] using hended
  rw [readSocket_link hlink, hend, greeted]
  refine ⟨⟨⟨_, rfl, hshut, hdial⟩, hc.receiver, hc.closing, rfl, fun h => (h rfl).elim⟩, rfl, rfl,
    rfl, rfl, rfl, ?_, ?_, ?_⟩
  · by_cases hphase : c.phase = .connecting <;> simp [output, hlink, hphase]
  · simp [ahead, incoming]
  · simp [isEnded, hlink, hend]

theorem processInbound_connected (hc : c.Quiet) (hkey : c.key.isSome = true)
    (hphase : c.phase = .connected) : c.processInbound max = ⟨c, [], .ok .alive⟩ := by
  have hread : c.refreshed = c := by
    rw [refreshed, hphase, hc.receiver]
    rfl
  have hidle : ¬ (c.phase = .connected ∧ c.receiverEnabled = true) := by simp [hc.receiver]
  rw [processInbound_eq hc.socket hkey, if_neg (not_not_intro hphase), hread,
    deliverFrames_waiting hidle, if_neg (by simp [hphase])]

/-- What comes of reading depends on the front of what has come in. -/
theorem processInbound_waiting (hc : c.Quiet) (hkey : c.key.isSome = true)
    (hphase : c.phase ≠ .connected) : c.processInbound max =
      match Handshake.front c.ahead with
      | .incomplete =>
        ⟨c.readSocket, [], if c.isEnded then .error .handshakeIncomplete else .ok .alive⟩
      | .invalid e _ => ⟨c.readSocket, [], .error (.handshake e)⟩
      | .identity peer rest =>
        match c.greeting peer with
        | .error e => ⟨c.readSocket, [], .error e⟩
        | .ok events =>
          ⟨(c.readSocket.greeted peer rest).signalReady.1,
            events ++ (c.readSocket.greeted peer rest).signalReady.2, .ok .alive⟩ := by
  obtain ⟨s, hlink, -⟩ := hc.link
  have hread : c.refreshed = c.readSocket := by
    rw [refreshed, hc.peerClosed]
    simp [hphase]
  have hphase' : c.readSocket.phase ≠ .connected := by
    rw [readSocket_link hlink]
    exact hphase
  have hbuffer : c.readSocket.readBuffer = c.ahead := by rw [readSocket_link hlink]
  have hgreeting : c.readSocket.greeting = c.greeting := by
    rw [readSocket_link hlink]
    rfl
  have hreceiver : c.readSocket.receiverEnabled = false := by
    rw [readSocket_link hlink]
    exact hc.receiver
  rw [processInbound_eq hc.socket hkey, if_pos hphase, hread, advanceHandshake_eq hphase', hbuffer,
    hgreeting]
  cases Handshake.front c.ahead with
  | incomplete =>
    have hidle : ¬ (c.readSocket.phase = .connected ∧ c.readSocket.receiverEnabled = true) :=
      fun h => hphase' h.1
    have hpeer : c.readSocket.peerClosed = c.isEnded := by
      rw [readSocket_link hlink, isEnded, hlink]
    dsimp only
    rw [deliverFrames_waiting hidle, hpeer]
    simp [hphase']
  | invalid e rest => rfl
  | identity peer rest =>
    dsimp only
    cases c.greeting peer with
    | error e => rfl
    | ok events =>
      dsimp only
      generalize hgreeted : c.readSocket.greeted peer rest = d
      have hconnected : d.signalReady.1.phase = .connected := by
        rw [← hgreeted]
        unfold signalReady
        split <;> rfl
      have hidle : ¬ (d.signalReady.1.phase = .connected ∧
          d.signalReady.1.receiverEnabled = true) := by
        rw [receiverEnabled_signalReady, ← hgreeted]
        simp [greeted, hreceiver]
      rw [deliverFrames_waiting hidle, if_neg (by simp [hconnected])]

/-! ### Attending -/

/-- All that is wanted is read, and all is written if there is room. -/
structure Exhausts (c c' : Connection) : Prop where
  read : c.key.isSome = true → c'.phase ≠ .connected → c'.incoming = []
  written : c.Free → c'.writeBuffer = []

theorem exhausts_flush (hflush : d.flush = .ok (c', events)) (hc : d.isLoopback = false)
    (hread : d.phase ≠ .connected → d.incoming = []) (hfree : c.Free → d.Free) :
    Exhausts c c' := by
  have hframe := (flush_frame hc hflush).1
  have hphase : c'.phase = d.phase := congrArg (·.phase) hframe
  refine ⟨fun _ hne => ?_, fun h => ((hfree h).flush hflush).2⟩
  rw [(receiving_congr hframe).2.2.1]
  exact hread (hphase ▸ hne)

/-- What comes of attending to a connection that has noted whether it is dialed. -/
inductive Attended (c : Connection) : Serviced → Prop
  /-- There is nothing to read, or the identity is not complete. -/
  | goes {c' : Connection} {events : List TransportEvent} (keeps : Keeps c c')
    (exhausts : Exhausts c c') (quiet : inbound events = [])
    (waits : c.phase = .connected ∨ c.key = none ∨ Handshake.front c.ahead = .incomplete) :
    Attended c ⟨c', events, .ok .alive⟩
  | greeted {c' : Connection} {events greeting : List TransportEvent} {peer : Proc} {rest : Bytes}
    (phase : c.phase ≠ .connected) (dialed : c.key.isSome = true)
    (front : Handshake.front c.ahead = .identity peer rest)
    (greets : c.greeting peer = .ok greeting) (meets : Meets c c' peer rest)
    (exhausts : Exhausts c c') (tells : inbound events = greeting) :
    Attended c ⟨c', events, .ok .alive⟩
  | refused {c' : Connection} {events : List TransportEvent} {peer : Proc} {rest : Bytes}
    (phase : c.phase = .connecting) (dialed : c.key.isSome = true)
    (front : Handshake.front c.ahead = .identity peer rest) (other : c.remote ≠ some peer)
    (rests : Rests c c') (quiet : inbound events = []) :
    Attended c ⟨c', events, .error (.handshakeMismatch c.remote peer)⟩
  | garbled {c' : Connection} {events : List TransportEvent} {e : IdentityError} {rest : Bytes}
    (phase : c.phase ≠ .connected) (front : Handshake.front c.ahead = .invalid e rest) :
    Attended c ⟨c', events, .error (.handshake e)⟩
  | cut {c' : Connection} {events : List TransportEvent} (ended : c.isEnded = true)
    (phase : c.phase ≠ .connected) (rests : Rests c c') (quiet : inbound events = []) :
    Attended c ⟨c', events, .error .handshakeIncomplete⟩

theorem greeting_keeps (h : Keeps c d) (hkey : c.key.isSome = true) : d.greeting = c.greeting := by
  funext peer
  rw [greeting, greeting, h.phase, h.remote, h.id, h.key hkey]

theorem greeting_dialed (hphase : c.phase = .connecting) (h : c.greeting peer = .ok events) :
    c.remote = some peer ∧ events = [.connected c.id peer c.key] := by
  simp only [greeting, hphase] at h
  split at h
  · rename_i hpeer
    cases h
    exact ⟨hpeer, rfl⟩
  · cases h

theorem greeting_accepted (hphase : c.phase = .accepting) (h : c.greeting peer = .ok events) :
    events = (c.key.map (TransportEvent.accepted c.id peer)).toList := by
  simp only [greeting, hphase] at h
  exact (Except.ok.inj h).symm

theorem greeting_error {e : NetError} (h : c.greeting peer = .error e) : c.phase = .connecting ∧
    c.remote ≠ some peer ∧ e = .handshakeMismatch c.remote peer := by
  unfold greeting at h
  split at h
  · rename_i hphase
    split at h
    · cases h
    · rename_i hother
      cases h
      exact ⟨hphase, hother, rfl⟩
  · cases h
  · cases h

theorem finishDial_opened (hc : c.Quiet) : c.finishDial = .ok c.opened := by
  obtain ⟨s, hlink, -, hdial⟩ := hc.link
  cases hfinish : c.finishDial with
  | ok d => rw [opened, hfinish]
  | error e =>
    simp only [finishDial, hlink] at hfinish
    split at hfinish
    · cases hfinish
    · split at hfinish
      · cases hfinish
      · contradiction
      · cases hfinish

theorem keeps_opened (hc : c.Quiet) : Keeps c c.opened := by
  obtain ⟨s, hlink, hshut, hdial⟩ := hc.link
  have hfinish := finishDial_opened hc
  simp only [finishDial, hlink] at hfinish
  split at hfinish
  · rw [← Except.ok.inj hfinish]
    exact Keeps.refl hc
  · rename_i hkey
    split at hfinish
    · rw [← Except.ok.inj hfinish]
      exact Keeps.refl hc
    · cases hfinish
    · rw [← Except.ok.inj hfinish, ← hlink]
      exact ⟨⟨⟨hc.link, hc.receiver, hc.closing, hc.peerClosed, hc.waits⟩, rfl, rfl, rfl, rfl,
        fun h => (hkey h).elim, rfl⟩, rfl, rfl⟩

/-- A connection whose dial is over never has to wait to write if its socket has room. -/
theorem free_opened (hc : c.Quiet) (hlink : c.link = .socket s) (hroom : s.room = none)
    (hdial : c.key.isSome = true ∨ ∃ key, s.dial = .done key) : c.opened.Free := by
  have hfinish := finishDial_opened hc
  simp only [finishDial, hlink] at hfinish
  split at hfinish
  · rename_i hkey
    rw [← Except.ok.inj hfinish]
    exact ⟨hkey, s, hlink, hroom⟩
  · rename_i hkey
    obtain ⟨key, hdone⟩ := hdial.resolve_left hkey
    rw [hdone] at hfinish
    rw [← Except.ok.inj hfinish]
    exact ⟨rfl, s, rfl, hroom⟩

/-- Writes, reads, and writes what reading has queued. -/
def attend (c : Connection) (max : Nat) : Serviced :=
  match c.flush with
  | .error e => ⟨c, [], .error e⟩
  | .ok (c, written) =>
    let r := c.processInbound max
    match r.outcome with
    | .ok .alive =>
      match r.connection.flush with
      | .error e => ⟨r.connection, written ++ r.events, .error e⟩
      | .ok (c, more) => ⟨c, written ++ r.events ++ more, .ok .alive⟩
    | outcome => ⟨r.connection, written ++ r.events, outcome⟩

theorem service_opened (hc : c.Quiet) : c.service max =
    if c.opened.key.isSome then c.opened.attend max else ⟨c.opened, [], .ok .alive⟩ := by
  have hsocket := (keeps_opened hc).quiet.socket
  rw [service, finishDial_opened hc]
  dsimp only
  rw [isDialed, hsocket, Bool.false_or]
  cases c.opened.key.isSome <;> rfl

theorem attend_alive (hflush : c.flush = .ok (d, written))
    (hinbound : d.processInbound max = ⟨c', events, .ok .alive⟩)
    (hflush' : c'.flush = .ok (c'', more)) :
    c.attend max = ⟨c'', written ++ events ++ more, .ok .alive⟩ := by
  simp only [attend, hflush, hinbound, hflush']

theorem attend_error {e : NetError} (hflush : c.flush = .ok (d, written))
    (hinbound : d.processInbound max = ⟨c', events, .error e⟩) :
    c.attend max = ⟨c', written ++ events, .error e⟩ := by
  simp only [attend, hflush, hinbound]

theorem attended_attend (hc : c.Quiet) (hkey : c.key.isSome = true)
    (hended : c.isEnded = true → c.phase ≠ .connected ∧ Handshake.front c.ahead = .incomplete) :
    Attended c (c.attend max) := by
  obtain ⟨d, written, hflush, hkeeps, hquiet⟩ := keeps_flush hc hkey
  have hdialed : d.key.isSome = true := by rwa [hkeeps.key hkey]
  have hfree (h : c.Free) : d.Free := (h.flush hflush).1
  by_cases hphase : d.phase = .connected
  · obtain ⟨c', more, hflush', hkeeps', hquiet'⟩ := keeps_flush hkeeps.quiet hdialed
    rw [attend_alive hflush (processInbound_connected hkeeps.quiet hdialed hphase) hflush']
    exact .goes (hkeeps.trans hkeeps')
      (exhausts_flush hflush' hkeeps.quiet.socket (fun hne => (hne hphase).elim) hfree)
      (by simp [hquiet, hquiet']) (.inl (hkeeps.phase.symm.trans hphase))
  have hinbound : d.processInbound max = _ :=
    processInbound_waiting hkeeps.quiet hdialed hphase
  have hrests : Rests c d.readSocket := rests_readSocket hkeeps.quiet hkeeps
  cases hfront : Handshake.front d.ahead with
  | incomplete =>
    rw [hfront] at hinbound
    cases hlast : d.isEnded with
    | false =>
      rw [hlast] at hinbound
      have hread := keeps_readSocket hkeeps.quiet hlast hfront
      obtain ⟨c', more, hflush', hkeeps', hquiet'⟩ :=
        keeps_flush hread.quiet (by rwa [hread.key hdialed])
      rw [attend_alive hflush hinbound hflush']
      exact .goes ((hkeeps.trans hread).trans hkeeps')
        (exhausts_flush hflush' hread.quiet.socket
          (fun _ => (readSocket_frame hkeeps.quiet.socket).1) fun h => (hfree h).readSocket)
        (by simp [hquiet, hquiet']) (.inr (.inr (hkeeps.ahead ▸ hfront)))
    | true =>
      rw [hlast] at hinbound
      rw [attend_error hflush hinbound]
      exact .cut (hkeeps.ended.symm.trans hlast) (hkeeps.phase ▸ hphase) hrests (by simp [hquiet])
  | invalid e rest =>
    rw [hfront] at hinbound
    rw [attend_error hflush hinbound]
    exact .garbled (hkeeps.phase ▸ hphase) (hkeeps.ahead ▸ hfront)
  | identity peer rest =>
    simp only [hfront] at hinbound
    have hlast : d.isEnded = false := by
      rw [hkeeps.ended]
      refine Bool.eq_false_iff.mpr fun h => ?_
      have hnone := (hended h).2
      rw [← hkeeps.ahead, hfront] at hnone
      cases hnone
    cases hgreets : d.greeting peer with
    | error e =>
      rw [hgreets] at hinbound
      obtain ⟨hdialing, hother, rfl⟩ := greeting_error hgreets
      rw [attend_error hflush hinbound, hkeeps.remote]
      exact .refused (hkeeps.phase.symm.trans hdialing) hkey (hkeeps.ahead ▸ hfront)
        (hkeeps.remote ▸ hother) hrests (by simp [hquiet])
    | ok greeting =>
      rw [hgreets] at hinbound
      have hgreeted : Meets d (d.readSocket.greeted peer rest) peer rest :=
        meets_greeted hkeeps.quiet hlast
      have hmeets : Meets c (d.readSocket.greeted peer rest).signalReady.1 peer rest :=
        (hgreeted.after_keeps hkey hkeeps).then_keeps hkey (keeps_signalReady hgreeted.quiet)
      obtain ⟨c', more, hflush', hkeeps', hquiet'⟩ :=
        keeps_flush hmeets.quiet (by rwa [hmeets.key])
      rw [attend_alive hflush hinbound hflush']
      refine .greeted (hkeeps.phase ▸ hphase) hkey (hkeeps.ahead ▸ hfront)
        (greeting_keeps hkeeps hkey ▸ hgreets) (hmeets.then_keeps hkey hkeeps')
        (exhausts_flush hflush' hmeets.quiet.socket (fun hne => (hne hmeets.phase).elim)
          fun h => (hfree h).readSocket.greeted.signalReady) ?_
      simp [hquiet, hquiet', inbound_signalReady, inbound_greeting hgreets]

theorem Attended.exhausts {r : Serviced} (h : Attended c r) (halive : r.outcome = .ok .alive) :
    Exhausts c r.connection := by
  cases h with
  | goes _ exhausts _ _ => exact exhausts
  | greeted _ _ _ _ _ exhausts _ => exact exhausts
  | refused _ _ _ _ _ _ => cases halive
  | garbled _ _ => cases halive
  | cut _ _ _ _ => cases halive

/-- A connection whose peer has written its last byte has got no complete identity. -/
theorem attended_service (hc : c.Quiet) (hended : c.isEnded = true →
      c.phase ≠ .connected ∧ Handshake.front c.ahead = .incomplete) :
    Attended c.opened (c.service max) := by
  have hopened := keeps_opened hc
  rw [← hopened.ended, ← hopened.phase, ← hopened.ahead] at hended
  rw [service_opened hc]
  cases hkey : c.opened.key with
  | none =>
    have hnone : c.opened.key.isSome ≠ true := by simp [hkey]
    exact .goes (Keeps.refl hopened.quiet) ⟨fun h => (hnone h).elim, fun h => (hnone h.dialed).elim⟩
      rfl (.inr (.inl hkey))
  | some key => exact attended_attend hopened.quiet (by rw [hkey]; rfl) hended

/-! ### What happens besides -/

theorem keeps_setSender (hc : c.Quiet) (enabled : Bool) : Keeps c (c.setSender enabled).1 := by
  have hset : Keeps c { c with senderEnabled := enabled } := hc.keeps
  cases enabled with
  | true => exact hset.trans (keeps_signalReady hset.quiet)
  | false => exact hset

/-- A message is taken only once the peer is known. -/
theorem continues_setMessage {payload : Bytes} (hc : c.Quiet)
    (h : c.setMessage payload max = .ok c') : Continues c c' ∧ c.phase = .connected ∧
      c'.output = c.output ++ Frame.encode payload ∧ c'.ahead = c.ahead := by
  obtain ⟨s, hlink, hshut, hdial⟩ := hc.link
  unfold setMessage at h
  split at h
  · cases h
  · split at h
    · cases h
    · rename_i hphase
      split at h
      · cases h
      · simp only [hlink, Except.ok.injEq] at h
        subst h
        refine ⟨⟨⟨⟨s, rfl, hshut, hdial⟩, hc.receiver, hc.closing, hc.peerClosed, hc.waits⟩, rfl,
          rfl, rfl, rfl, fun _ => rfl, ?_⟩, Decidable.not_not.mp hphase, ?_, ?_⟩
        · simp [isEnded, hlink]
        · simp [output, hlink]
        · simp [ahead, incoming, hlink]

theorem quiet_onSocket (hc : c.Quiet) {f : Socket → Socket} (hshut : ∀ s, (f s).shut = s.shut)
    (hdial : ∀ s, s.dial ≠ .failed → (f s).dial ≠ .failed) : (c.onSocket f).Quiet := by
  obtain ⟨s, hlink, hopen, hdial'⟩ := hc.link
  simp only [onSocket, hlink]
  exact ⟨⟨_, rfl, (hshut s).trans hopen, hdial s hdial'⟩, hc.receiver, hc.closing, hc.peerClosed,
    hc.waits⟩

theorem continues_onSocket (hc : c.Quiet) {f : Socket → Socket} (hshut : ∀ s, (f s).shut = s.shut)
    (hdial : ∀ s, s.dial ≠ .failed → (f s).dial ≠ .failed)
    (hended : ∀ s, (f s).ended = s.ended) : Continues c (c.onSocket f) := by
  obtain ⟨s, hlink, -⟩ := hc.link
  have hquiet := quiet_onSocket hc hshut hdial
  simp only [onSocket, hlink] at hquiet ⊢
  refine ⟨hquiet, rfl, rfl, rfl, rfl, fun _ => rfl, ?_⟩
  simp [isEnded, hlink, hended]

theorem phase_onSocket {f : Socket → Socket} : (c.onSocket f).phase = c.phase := by
  unfold onSocket
  split <;> rfl

end Connection

end Multicast
