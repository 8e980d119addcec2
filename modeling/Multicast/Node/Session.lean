import Multicast.Node.Basic

/-! A node in the hands of its application. Each call runs the node until it has nothing left to
do; a call that has no reply then stays blocked. -/
namespace Multicast

/-- What the handler of causal deliveries does besides reporting them. -/
inductive HandlerConduct where
  | reports
  /-- It makes calls that wait, which are refused. -/
  | calls
  /-- It shuts the node down. -/
  | stops
  deriving DecidableEq, Repr

structure Session where
  node : Node
  conduct : HandlerConduct := .reports
  /-- Whether it is time to reconnect on every turn of the loop. -/
  overdue : Bool := false
  nextTicket : Ticket := 0
  /-- The calls that were blocked, oldest first. -/
  blocked : List Ticket := []
  /-- Blocked calls whose result was taken. -/
  awaited : List Ticket := []
  /-- The handler of a causal delivery does not return. -/
  suspended : Bool := false
  /-- How many events were reported. -/
  seen : Nat := 0

/-- What can be done with a node. -/
inductive Action where
  | fifo (payload : Bytes) (dests : Destinations)
  | causal (payload : Bytes) (dests : Destinations)
  | join (p : Proc)
  | remove (p : Proc)
  | adeliver (op : MembershipOp)
  | view
  /-- Takes the result of the blocked call of this number. -/
  | await (number : Nat)
  /-- Sends a causal message to the local process, whose handler does not return until `release`. -/
  | hold
  | release
  | stop
  deriving Repr

inductive Outcome where
  | done
  | failed (e : NodeError)
  | view (v : Option View)
  /-- The call of this number waits. -/
  | blocked (number : Nat)
  | stopped
  deriving DecidableEq, Repr

/-- What the application notes down. -/
inductive Report where
  | event (e : NodeEvent)
  /-- The replies to calls that a handler made. -/
  | nested (replies : List (Except NodeError Unit))

namespace Session

/-- Bound on the turns of one call. -/
def maxTurns : Nat := 1000000

def ofReply : Except NodeError Reply → Outcome
  | .ok .sent => .done
  | .ok (.view v) => .view v
  | .error e => .failed e

def hasCausal (events : List NodeEvent) : Bool :=
  events.any fun
    | .causalDelivered _ => true
    | _ => false

/-- Ends the loop if that was asked for. -/
def endLoop (s : Session) : Session :=
  if s.node.stopping && !s.node.exited then { s with node := s.node.finish } else s

/-- Lets the handlers act on what a turn has brought. -/
def heed (s : Session) (before : Nat) : Session :=
  if s.conduct = .stops && hasCausal (s.node.events.drop before) then
    { s with node := { s.node with stopping := true } }
  else s

def turn (s : Session) (overdue : Bool) : Session :=
  let before := s.node.events.length
  ({ s with node := s.node.turn [] overdue }.heed before).endLoop

/-- Turns the loop until it has nothing to do. -/
def run (s : Session) : Nat → Session
  | 0 => s
  | fuel + 1 => if s.node.exited || s.node.isIdle then s else (s.turn false).run fuel

/-- Turns the loop at least once and until it has nothing to do. When it is time to reconnect on
every turn, it does so at the beginning and at the end: between them, nothing can be dialed that
is not dialed anyway. -/
def settle (s : Session) : Session :=
  if s.suspended || s.node.exited then s
  else
    let s := (s.turn s.overdue).run maxTurns
    if s.overdue && !s.node.exited then (s.turn true).run maxTurns else s

/-- Starts a node. -/
def start (c : NodeConfig) (network : Network) (conduct : HandlerConduct) (overdue : Bool) :
    Except NodeError Session := do
  let node ← Node.start c network
  return { node, conduct, overdue : Session }.settle

/-- A call that does not wait. -/
def submit (s : Session) (c : Command) : Outcome × Session :=
  match s.node.request .application c with
  | .error e => (.failed e, s)
  | .ok node => (.done, { s with node }.settle)

/-- A call that waits for its reply. -/
def call (s : Session) (c : Ticket → Command) : Outcome × Session :=
  let t := s.nextTicket
  match s.node.request .application (c t) with
  | .error e => (.failed e, s)
  | .ok node =>
    let s := { s with node, nextTicket := t + 1 }.settle
    match s.node.answer? t with
    | some r => (ofReply r, s)
    | none => (.blocked s.blocked.length, { s with blocked := s.blocked ++ [t] })

def holdPayload : Bytes := Bytes.ofText "hold"

def hold (s : Session) : Outcome × Session :=
  let t := s.nextTicket
  match s.node.request .application (.causalSend t holdPayload (.processes [s.node.here])) with
  | .error e => (.failed e, s)
  | .ok node =>
    let before := node.events.length
    let s := { s with node := node.takeCommands, nextTicket := t + 1, suspended := true }
    (.done, s.heed before)

/-- Lets the handler return, and the turn in which it was called go on. -/
def release (s : Session) : Session :=
  if !s.suspended then s
  else
    let s := { s with node := s.node.takeEvents [] s.overdue, suspended := false }.endLoop
    if s.node.exited then s else s.settle

def stop (s : Session) : Session :=
  let s := { s with node := { s.node with stopping := true } }
  if s.suspended then s.release
  else if s.node.exited then s
  else { s with node := s.node.takeEvents [] s.overdue }.endLoop

/-- The result of a blocked call. A node that is gone answers none. -/
def result (s : Session) (t : Ticket) : Outcome :=
  match s.node.answer? t with
  | some r => ofReply r
  | none => .failed .shutdown

def await (s : Session) (number : Nat) : Outcome × Session :=
  match s.blocked[number]? with
  | none => (.failed .shutdown, s)
  | some t =>
    match s.node.answer? t with
    | some r => (ofReply r, { s with awaited := s.awaited ++ [t] })
    | none => (.blocked number, s)

def act (s : Session) : Action → Outcome × Session
  | .fifo payload dests => s.submit (.fifoSend payload dests)
  | .causal payload dests => s.call (.causalSend · payload dests)
  | .join p => s.submit (.join p)
  | .remove p => s.submit (.remove p)
  | .adeliver op => s.submit (.adeliver op)
  | .view => s.call .view
  | .await number => s.await number
  | .hold => s.hold
  | .release => (.done, s.release)
  | .stop => (.stopped, s.stop)

/-- What comes of the calls of a handler: it asks for the view and sends a message. -/
def nested (s : Session) : List (Except NodeError Unit) :=
  [.view s.nextTicket, .causalSend s.nextTicket [] .view].map fun c =>
    (s.node.request .handler c).map fun _ => ()

/-- What the application notes down about an event. -/
def reports (s : Session) : NodeEvent → List Report
  | .causalDelivered d =>
    .event (.causalDelivered d) :: if s.conduct = .calls then [.nested s.nested] else []
  | e => [.event e]

/-- What was noted down since the last look. -/
def collect (s : Session) : List Report × Session :=
  ((s.node.events.drop s.seen).flatMap s.reports, { s with seen := s.node.events.length })

/-- The results of the blocked calls that were never awaited, once the node is stopped. -/
def abandoned (s : Session) : List Outcome :=
  let s := s.stop
  (s.blocked.filter (· ∉ s.awaited)).map s.result

end Session

end Multicast
