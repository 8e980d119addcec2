import Multicast.Proofs.Net.Inbound

/-! A connection while bytes come in, in whatever chunks, and its receiver is started and stopped:
it reports what it would if the whole stream were read at once. -/
namespace Multicast

open TransportEvent (inbound)

/-- How a connection that has a socket came about. -/
inductive Opening where
  | accepted (key : ConnectionKey)
  /-- The dial has come to its end. -/
  | dialed (remote : Proc) (key : ConnectionKey)

/-- A connection before anything is read. -/
def Opening.connection (o : Opening) (c : ConnectionId) (here : Proc) : Connection :=
  match o with
  | .accepted key => .accepting c here key {}
  | .dialed remote key =>
    { Connection.dialing c here remote { dial := .done key } with key := some key }

namespace Opening

variable {c : ConnectionId} {here remote : Proc} {key : ConnectionKey} {stream : Bytes}

theorem finishDial_dialing :
    (Connection.dialing c here remote { dial := .done key }).finishDial =
      .ok ((Opening.dialed remote key).connection c here) := rfl

theorem intact_connection (o : Opening) : (o.connection c here).Intact stream := by
  cases o <;> exact ⟨rfl, rfl, nofun, nofun⟩

theorem ahead_connection (o : Opening) : (o.connection c here).ahead = [] := by
  cases o <;> rfl

end Opening

/-- A connection as it is attended to while bytes come in. -/
structure Inflow extends Serviced where
  /-- What the peer sends that is still to arrive. -/
  coming : Bytes

namespace Inflow

inductive Action where
  /-- The next bytes arrive. -/
  | arrive (n : Nat)
  /-- The end of the stream arrives, if all bytes have. -/
  | finish
  | receiver (enabled : Bool)
  | sender (enabled : Bool)
  | send (payload : Bytes)
  | flush
  | close
  /-- A connection that closed or broke is not attended to any more. -/
  | attend

def start (c : Connection) (stream : Bytes) : Inflow where
  connection := c
  events := []
  outcome := .ok .alive
  coming := stream

def step (max : Nat) (s : Inflow) : Action → Inflow
  | .arrive n => { s with
      connection := s.connection.onSocket fun socket =>
        { socket with incoming := socket.incoming ++ s.coming.take n }
      coming := s.coming.drop n }
  | .finish =>
    if s.coming = [] then
      { s with connection := s.connection.onSocket fun socket => { socket with ended := true } }
    else s
  | .receiver enabled => { s with connection := s.connection.setReceiver enabled }
  | .sender enabled => { s with
      connection := (s.connection.setSender enabled).1
      events := s.events ++ (s.connection.setSender enabled).2 }
  | .send payload =>
    match s.connection.setMessage payload max with
    | .ok c => { s with connection := c }
    | .error _ => s
  | .flush =>
    match s.connection.flush with
    | .ok (c, events) => { s with connection := c, events := s.events ++ events }
    | .error _ => s
  | .close => { s with connection := s.connection.beginClose }
  | .attend =>
    match s.outcome with
    | .ok .alive =>
      let r := s.connection.processInbound max
      { r with events := s.events ++ r.events, coming := s.coming }
    | _ => s

def run (max : Nat) (s : Inflow) (actions : List Action) : Inflow := actions.foldl (step max) s

variable {whole : Bool → Reading} {max : Nat} {s : Inflow} {a : Action} {actions : List Action}

/-- So far all is as if the stream had been read at once. -/
structure Faithful (whole : Bool → Reading) (max : Nat) (s : Inflow) : Prop where
  intact : s.connection.Intact s.coming
  explains : Connection.Explains whole max s.coming s.toServiced

theorem faithful_start {c : Connection} {stream : Bytes} (hc : c.Intact stream)
    (hempty : c.ahead = []) : Faithful (c.reading max stream) max (start c stream) := by
  refine ⟨hc, fun _ ended => ?_, fun h => (h rfl).elim⟩
  change _ = Reading.after [] (c.reading max (c.ahead ++ stream) ended)
  rw [hempty]
  rfl

/-- Whatever has nothing to do with the bytes that come in makes no difference. -/
theorem Faithful.same (h : Faithful whole max s) {c : Connection} {events : List TransportEvent}
    (hc : c.receiving = s.connection.receiving) (hevents : inbound events = []) :
    Faithful whole max { s with connection := c, events := s.events ++ events } := by
  obtain ⟨hreading, hahead, -, hended⟩ := Connection.receiving_congr hc
  refine ⟨h.intact.congr hc, h.explains.congr rfl ?_ hreading ?_ ?_⟩
  · rw [TransportEvent.inbound_append, hevents, List.append_nil]
  · rw [hahead]
  · rw [hended]
    exact id

theorem Faithful.quiet (h : Faithful whole max s) {c : Connection}
    (hc : c.receiving = s.connection.receiving) :
    Faithful whole max { s with connection := c } := by
  have hnone := h.same hc (rfl : inbound [] = [])
  rwa [List.append_nil] at hnone

theorem faithful_arrive (h : Faithful whole max s) (n : Nat) :
    Faithful whole max (s.step max (.arrive n)) := by
  obtain ⟨socket, hlink⟩ := Connection.link_of_socket h.intact.socket
  obtain ⟨hsocket, hdialed, hended, hclosed⟩ := h.intact
  simp only [Connection.isEnded, Connection.incoming, hlink] at hended hclosed
  simp only [step, Connection.onSocket, hlink]
  constructor
  · refine ⟨rfl, hdialed, fun hlast => ?_, fun hpeer => ?_⟩
    · change s.coming.drop n = []
      rw [hended hlast, List.drop_nil]
    · obtain ⟨hlast, hread⟩ := hclosed hpeer
      refine ⟨hlast, ?_⟩
      change socket.incoming ++ s.coming.take n = []
      rw [hread, hended hlast, List.take_nil]
      rfl
  · refine h.explains.congr rfl rfl rfl ?_ ?_
    · simp [Connection.ahead, Connection.incoming, hlink]
    · simp [Connection.isEnded, hlink]

theorem faithful_finish (h : Faithful whole max s) :
    Faithful whole max (s.step max .finish) := by
  simp only [step]
  split
  · rename_i hall
    obtain ⟨socket, hlink⟩ := Connection.link_of_socket h.intact.socket
    obtain ⟨hsocket, hdialed, hended, hclosed⟩ := h.intact
    simp only [Connection.isEnded, Connection.incoming, hlink] at hclosed
    simp only [Connection.onSocket, hlink]
    constructor
    · exact ⟨rfl, hdialed, fun _ => hall, fun hpeer => ⟨rfl, (hclosed hpeer).2⟩⟩
    · refine h.explains.congr rfl rfl rfl ?_ fun _ => rfl
      simp [Connection.ahead, Connection.incoming, hlink]
  · exact h

theorem faithful_attend (h : Faithful whole max s) :
    Faithful whole max (s.step max .attend) := by
  simp only [step]
  split
  · rename_i halive
    refine ⟨(Connection.processInbound_frame h.intact).2.2, ?_⟩
    obtain ⟨⟨c, events, outcome⟩, coming⟩ := s
    cases halive
    exact h.explains.trans (Connection.explains_processInbound h.intact)
  · exact h

/-- Nothing that is done to a connection, and no arrival, makes it read anything else. -/
theorem faithful_step (h : Faithful whole max s) : Faithful whole max (s.step max a) := by
  cases a with
  | arrive n => exact faithful_arrive h n
  | finish => exact faithful_finish h
  | receiver enabled => exact h.quiet rfl
  | sender enabled =>
    exact h.same Connection.receiving_setSender Connection.inbound_setSender
  | send payload =>
    simp only [step]
    split
    · rename_i c hc
      exact h.quiet (Connection.receiving_setMessage hc)
    · exact h
  | flush =>
    simp only [step]
    split
    · rename_i c events hflush
      obtain ⟨hc, hevents⟩ := Connection.flush_frame h.intact.socket hflush
      exact h.same hc hevents
    · exact h
  | close => exact h.quiet rfl
  | attend => exact faithful_attend h

theorem faithful_run (h : Faithful whole max s) : Faithful whole max (s.run max actions) := by
  induction actions generalizing s with
  | nil => exact h
  | cons a actions ih => exact ih (faithful_step h)

/-- A connection whose frames are wanted, and that still goes on after it was attended to, has
nothing left to read. -/
theorem attend_idle (h : Faithful whole max s) (hall : s.coming = [])
    (hreceiver : s.connection.receiverEnabled = true)
    (halive : (s.step max .attend).outcome = .ok .alive) :
    whole (s.step max .attend).connection.isEnded =
      ⟨inbound (s.step max .attend).events, .ok .alive⟩ := by
  have hgoing := (faithful_attend h).explains.going halive
  cases hs : s.outcome with
  | error e => simp [step, hs] at halive
  | ok liveness =>
    cases liveness with
    | closed => simp [step, hs] at halive
    | alive =>
      simp only [step, hs] at halive hgoing ⊢
      rw [hgoing, hall, List.append_nil, Connection.processInbound_idle h.intact hreceiver halive]
      simp [Reading.after]

/-- At any time the events are the first of those that reading the whole stream at once leads to.
A connection that has ended has reported them all and has ended as that does. So does one that goes
on, once all bytes have come in and are wanted. -/
theorem read_as_whole (o : Opening) (c : ConnectionId) (here : Proc) (max : Nat) (stream : Bytes)
    (actions : List Action) :
    let s := run max (start (o.connection c here) stream) actions
    let whole := (o.connection c here).reading max stream
    (∀ ended, inbound s.events <+: (whole ended).events) ∧
    (s.outcome ≠ .ok .alive → whole s.connection.isEnded = ⟨inbound s.events, s.outcome⟩) ∧
    (s.coming = [] → s.connection.receiverEnabled = true →
      let t := s.step max .attend
      whole t.connection.isEnded = ⟨inbound t.events, t.outcome⟩) := by
  intro s whole
  have hs : Faithful whole max s :=
    faithful_run (faithful_start o.intact_connection o.ahead_connection)
  have hover : ∀ t : Inflow, Faithful whole max t → t.outcome ≠ .ok .alive →
      whole t.connection.isEnded = ⟨inbound t.events, t.outcome⟩ :=
    fun t ht hover => ht.explains.finished hover _ id
  refine ⟨fun ended => ?_, hover s hs, fun hall hreceiver => ?_⟩
  · by_cases halive : s.outcome = .ok .alive
    · rw [hs.explains.going halive ended]
      exact List.prefix_append _ _
    · have hwhole : (whole ended).events = (whole s.connection.isEnded).events :=
        Connection.reading_events ended s.connection.isEnded
      have hsame : inbound s.events = (whole ended).events := by
        rw [hwhole, hover s hs halive]
      exact hsame ▸ List.prefix_rfl
  · intro t
    by_cases halive : t.outcome = .ok .alive
    · rw [attend_idle hs hall hreceiver halive, halive]
    · exact hover t (faithful_attend hs) halive

/-- Bytes that are cut within the handshake and within a frame. The peer closes within a frame. -/
theorem torn_frame_read_as_whole :
    let key : ConnectionKey := ⟨.v4 [127, 0, 0, 1] 7000, .v4 [127, 0, 0, 1] 50001⟩
    let c := (Opening.accepted key).connection 2 ⟨"b", 7000, 0⟩
    let stream : Bytes := [1, 0, 0, 0, 97, 2, 0, 0, 0, 0, 0, 0, 0] ++ [1, 0, 0, 0, 5] ++ [9, 0, 0]
    let s := run 8 (start c stream) [.arrive 6, .attend, .receiver true, .receiver false,
      .arrive 9, .arrive 6, .finish, .receiver true]
    let t := s.step 8 .attend
    s.coming = [] ∧ s.connection.receiverEnabled = true ∧
      inbound t.events = [.accepted 2 ⟨"a", 2, 0⟩ key, .received 2 [5]] ∧
      t.outcome = .error (.truncatedFrame 3) := by
  intro key c stream s t
  have hall : s.coming = [] := by decide
  have hreceiver : s.connection.receiverEnabled = true := by decide
  have hread := (read_as_whole (.accepted key) 2 ⟨"b", 7000, 0⟩ 8 stream
    [.arrive 6, .attend, .receiver true, .receiver false, .arrive 9, .arrive 6, .finish,
      .receiver true]).2.2 hall hreceiver
  change c.reading 8 stream t.connection.isEnded = ⟨inbound t.events, t.outcome⟩ at hread
  have hended : t.connection.isEnded = true := by decide +kernel
  have hwhole : c.reading 8 stream true =
      ⟨[.accepted 2 ⟨"a", 2, 0⟩ key, .received 2 [5]], .error (.truncatedFrame 3)⟩ := by
    decide +kernel
  refine ⟨hall, hreceiver, ?_⟩
  clear_value c t
  rw [hended, hwhole] at hread
  exact ⟨(congrArg Reading.events hread).symm, (congrArg Reading.outcome hread).symm⟩

end Inflow

end Multicast
