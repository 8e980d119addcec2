import Multicast.Proofs.Wire.Handshakes
import Multicast.Proofs.Net.Greeting

/-! Two ends of a connection, one of which has dialed the other, while they are introduced: their
bytes are carried in whatever chunks, and either is attended to at whatever time. -/
namespace Multicast

/-- The ends of a connection: the one that dialed, and the one that was dialed. -/
inductive Role where
  | active
  | passive
  deriving DecidableEq, Repr

def Role.other : Role → Role
  | .active => .passive
  | .passive => .active

/-- One end of a connection. -/
structure Party where
  connection : Connection
  /-- The size of the largest frame. -/
  max : Nat
  outcome : Except NetError Liveness := .ok .alive
  /-- The payloads that it was given to send and took. -/
  said : List Bytes := []

namespace Party

def service (x : Party) : Party × List TransportEvent :=
  let r := x.connection.service x.max
  ({ x with connection := r.connection, outcome := r.outcome }, r.events)

def setSender (enabled : Bool) (x : Party) : Party × List TransportEvent :=
  let (c, events) := x.connection.setSender enabled
  ({ x with connection := c }, events)

/-- Gives the end a message to send. It may be refused. -/
def setMessage (payload : Bytes) (x : Party) : Party × List TransportEvent :=
  match x.connection.setMessage payload x.max with
  | .ok c => ({ x with connection := c, said := x.said ++ [payload] }, [])
  | .error _ => (x, [])

def onSocket (x : Party) (f : Socket → Socket) : Party :=
  { x with connection := x.connection.onSocket f }

end Party

/-- Who dials, whom it wants and whom it gets. -/
structure Dial where
  caller : Proc
  wanted : Proc
  callee : Proc
  /-- The number of the connection where it was dialed. -/
  near : ConnectionId
  nearMax : Nat
  /-- The number of the connection where it was accepted. -/
  far : ConnectionId
  farMax : Nat
  farKey : ConnectionKey

/-- Both ends of a connection of which no frames are wanted yet. -/
structure Encounter where
  active : Party
  passive : Party
  /-- What the ends have reported, first to last. -/
  log : List (Role × TransportEvent) := []

namespace Encounter

inductive Move where
  | service (role : Role)
  | sender (role : Role) (enabled : Bool)
  | message (role : Role) (payload : Bytes)
  /-- So many of the bytes that an end has written arrive at the other. -/
  | carry (role : Role) (count : Nat)
  /-- How many bytes can be written. -/
  | room (role : Role) (room : Option Nat)
  /-- The dial comes to an end. -/
  | dialed (key : ConnectionKey)
  /-- An end that failed is gone, and the other has got all that was written. -/
  | hangUp (role : Role)

def party (w : Encounter) : Role → Party
  | .active => w.active
  | .passive => w.passive

def put (w : Encounter) (role : Role) (x : Party) : Encounter :=
  match role with
  | .active => { w with active := x }
  | .passive => { w with passive := x }

/-- What an end does, if it has not failed. -/
def act (w : Encounter) (role : Role) (f : Party → Party × List TransportEvent) :
    Encounter :=
  if (w.party role).outcome = .ok .alive then
    let (x, events) := f (w.party role)
    { w.put role x with log := w.log ++ events.map (Prod.mk role) }
  else w

/-- What happens to the socket of an end. -/
def onSocket (w : Encounter) (role : Role) (f : Socket → Socket) : Encounter :=
  w.put role ((w.party role).onSocket f)

def step (w : Encounter) : Move → Encounter
  | .service role => w.act role Party.service
  | .sender role enabled => w.act role (Party.setSender enabled)
  | .message role payload => w.act role (Party.setMessage payload)
  | .carry role count =>
    let bytes := (w.party role).connection.outgoing.take count
    (w.onSocket role fun s => { s with outgoing := s.outgoing.drop count }).onSocket role.other
      fun s => { s with incoming := s.incoming ++ bytes }
  | .room role room => w.onSocket role ({ · with room })
  | .dialed key => w.onSocket .active ({ · with dial := .done key })
  | .hangUp role =>
    if (w.party role).outcome ≠ .ok .alive ∧ (w.party role).connection.outgoing = [] then
      w.onSocket role.other ({ · with ended := true })
    else w

def run (w : Encounter) (moves : List Move) : Encounter := moves.foldl step w

def start (d : Dial) : Encounter where
  active := { connection := .dialing d.near d.caller d.wanted {}, max := d.nearMax }
  passive := { connection := .accepting d.far d.callee d.farKey {}, max := d.farMax }

/-- What was reported apart from the requests for a message. -/
def greetings (log : List (Role × TransportEvent)) : List (Role × TransportEvent) :=
  log.filter (!·.2.isReady)

/-- How far the two have got. -/
inductive Stage where
  | dialing
  /-- The end that dialed knows the other, and has said who it is. -/
  | answered
  | met
  deriving DecidableEq

namespace Stage

def active : Stage → Phase
  | dialing => .connecting
  | answered | met => .connected

def passive : Stage → Phase
  | dialing | answered => .accepting
  | met => .connected

/-- The peer that the passive end knows. -/
def peer (d : Dial) : Stage → Option Proc
  | dialing | answered => none
  | met => some d.caller

/-- The identity that is on its way to the active end. -/
def toActive (d : Dial) : Stage → Bytes
  | dialing => Handshake.encode d.callee
  | answered | met => []

/-- The identity that is on its way to the passive end. -/
def toPassive (d : Dial) : Stage → Bytes
  | dialing | met => []
  | answered => Handshake.encode d.caller

def greetings (d : Dial) (key : Option ConnectionKey) : Stage → List (Role × TransportEvent)
  | dialing => []
  | answered => [(.active, .connected d.near d.callee key)]
  | met =>
    [(.active, .connected d.near d.callee key), (.passive, .accepted d.far d.caller d.farKey)]

end Stage

end Encounter

/-- An end that goes on. It sends no message before it knows its peer. -/
structure Party.Goes (x : Party) (id : ConnectionId) (here : Proc) (phase : Phase)
    (remote : Option Proc) : Prop where
  alive : x.outcome = .ok .alive
  quiet : x.connection.Quiet
  ended : x.connection.isEnded = false
  dialed : phase ≠ .connecting → x.connection.key.isSome = true
  silent : phase ≠ .connected → x.said = []
  id : x.connection.id = id
  here : x.connection.here = here
  phase : x.connection.phase = phase
  remote : x.connection.remote = remote

/-- What `y` has got of `x` and not decoded, and what `x` has still to send on: `first`, then the
messages. -/
def Party.Sends (x y : Party) (first : Bytes) : Prop :=
  y.connection.ahead ++ x.connection.output = first ++ x.said.flatMap Frame.encode

/-- An end knows its peer, and the messages of the peer are there to be decoded. -/
structure Party.Knows (x : Party) (peer : Proc) (said : List Bytes) : Prop where
  phase : x.connection.phase = .connected
  remote : x.connection.remote = some peer
  ahead : x.connection.ahead = said.flatMap Frame.encode

namespace Party

variable {x x' y y' : Party} {id : ConnectionId} {here : Proc} {phase : Phase}
  {remote : Option Proc} {first payload : Bytes}

theorem Goes.continues (h : x.Goes id here phase remote)
    (hc : x.connection.Continues y.connection) (houtcome : y.outcome = x.outcome)
    (hsaid : phase ≠ .connected → y.said = x.said) : y.Goes id here phase remote where
  alive := houtcome.trans h.alive
  quiet := hc.quiet
  ended := hc.ended.trans h.ended
  dialed hphase := by
    rw [hc.key (h.dialed hphase)]
    exact h.dialed hphase
  silent hphase := (hsaid hphase).trans (h.silent hphase)
  id := hc.id.trans h.id
  here := hc.here.trans h.here
  phase := hc.phase.trans h.phase
  remote := hc.remote.trans h.remote

theorem Goes.meets {c c' : Connection} {peer : Proc} {rest : Bytes}
    (h : x.Goes id here phase remote) (hopened : x.connection.Keeps c)
    (hdialed : c.key.isSome = true) (hmeets : c.Meets c' peer rest) :
    Goes { x with connection := c', outcome := .ok .alive } id here .connected (some peer) where
  alive := rfl
  quiet := hmeets.quiet
  ended := (hmeets.ended.trans hopened.ended).trans h.ended
  dialed _ := by
    dsimp only
    rw [hmeets.key]
    exact hdialed
  silent hne := (hne rfl).elim
  id := (hmeets.id.trans hopened.id).trans h.id
  here := (hmeets.here.trans hopened.here).trans h.here
  phase := hmeets.phase
  remote := hmeets.remote

theorem Sends.same (h : x.Sends y first) (houtput : x'.connection.output = x.connection.output)
    (hahead : y'.connection.ahead = y.connection.ahead) (hsaid : x'.said = x.said) :
    x'.Sends y' first := by
  rw [Sends, houtput, hahead, hsaid]
  exact h

theorem Sends.carry (h : x.Sends y first) (hy : y.connection.isLoopback = false) (count : Nat) :
    (x.onSocket fun s => { s with outgoing := s.outgoing.drop count }).Sends
      (y.onSocket fun s =>
        { s with incoming := s.incoming ++ x.connection.outgoing.take count }) first := by
  rw [Sends, onSocket, onSocket, Connection.ahead_carried hy, List.append_assoc,
    ← Connection.output_carried]
  exact h

theorem Sends.message (h : x.Sends y first)
    (houtput : x'.connection.output = x.connection.output ++ Frame.encode payload)
    (hsaid : x'.said = x.said ++ [payload]) : x'.Sends y first := by
  rw [Sends, houtput, hsaid, List.flatMap_append, ← List.append_assoc, ← List.append_assoc]
  exact congrArg₂ (· ++ ·) h (List.flatMap_singleton ..).symm

/-- Of a handshake that is being sent, either not all has come in, or the peer reads it and goes on
with what comes behind it. -/
theorem Sends.front {p : Proc} (hp : p.Fits) (h : x.Sends y (Handshake.encode p)) :
    (Handshake.front y.connection.ahead = .incomplete ∧
        ¬ Handshake.encode p <+: y.connection.ahead) ∨
      ∃ left, Handshake.front y.connection.ahead = .identity p left ∧
        Handshake.encode p <+: y.connection.ahead ∧
        left ++ x.connection.output = x.said.flatMap Frame.encode := by
  rcases Handshake.front_of_encode hp h with ⟨hfront, hshort⟩ | ⟨left, hfront, hahead, hrest⟩
  · exact .inl ⟨hfront, fun hprefix => absurd hprefix.length_le (Nat.not_le.mpr hshort)⟩
  · exact .inr ⟨left, hfront, ⟨left, hahead.symm⟩, hrest.symm⟩

theorem Sends.reads {p peer : Proc} {rest : Bytes} (hp : p.Fits)
    (h : x.Sends y (Handshake.encode p))
    (hfront : Handshake.front y.connection.ahead = .identity peer rest) : peer = p ∧
      Handshake.encode p <+: y.connection.ahead ∧
      rest ++ x.connection.output = x.said.flatMap Frame.encode := by
  rcases h.front hp with ⟨hnone, -⟩ | ⟨left, hidentity, hall, hrest⟩
  · rw [hnone] at hfront
    cases hfront
  · rw [hidentity] at hfront
    cases hfront
    exact ⟨rfl, hall, hrest⟩

theorem Sends.not_invalid {p : Proc} {e : IdentityError} {rest : Bytes} (hp : p.Fits)
    (h : x.Sends y (Handshake.encode p)) :
    Handshake.front y.connection.ahead ≠ .invalid e rest := by
  intro hfront
  rcases h.front hp with ⟨hnone, -⟩ | ⟨left, hidentity, -⟩
  · rw [hnone] at hfront
    cases hfront
  · rw [hidentity] at hfront
    cases hfront

/-- Nothing has come in. -/
theorem Sends.nothing (h : x.Sends y []) (hsaid : x.said = []) :
    y.connection.ahead = [] ∧ x.connection.output = [] := by
  rw [Sends, hsaid] at h
  exact List.append_eq_nil_iff.mp h

/-- An end that has read all of a handshake has met its peer. -/
theorem Sends.connected {p : Proc} (hp : p.Fits) (h : x.Sends y (Handshake.encode p))
    (houtput : x.connection.output = []) (hquiet : y.connection.Quiet)
    (hread : y.connection.phase ≠ .connected → y.connection.incoming = []) :
    y.connection.phase = .connected := by
  refine Decidable.byContradiction fun hphase => ?_
  have hbuffer : y.connection.readBuffer = Handshake.encode p ++ x.said.flatMap Frame.encode := by
    rwa [Sends, houtput, Connection.ahead, hread hphase, List.append_nil, List.append_nil] at h
  have hwaits := hquiet.waits hphase
  rw [hbuffer, Handshake.front_encode hp] at hwaits
  cases hwaits

theorem Sends.knows {peer : Proc} (h : x.Sends y []) (houtput : x.connection.output = [])
    (hphase : y.connection.phase = .connected) (hremote : y.connection.remote = some peer) :
    y.Knows peer x.said where
  phase := hphase
  remote := hremote
  ahead := by rwa [Sends, houtput, List.append_nil] at h

end Party

end Multicast
