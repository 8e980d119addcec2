import Multicast.Node.Command
import Multicast.Node.PeerTable
import Multicast.Node.Queue
import Multicast.Order.Causal
import Multicast.Order.Fifo
import Multicast.Wire.Envelope

/-! A node: the layers, the peer table and the transport of one process, and the loop that drives
them. The layers ask for actions, which the node carries out in the order they were asked for. -/
namespace Multicast

structure NodeConfig where
  /-- The local process. Port zero stands for any free port. -/
  here : Proc
  /-- The first view. Empty for a node that waits for a state transfer. -/
  members : List Proc
  transport : TransportConfig := {}
  /-- Most packets of one source kept for their turn. -/
  fifoLimit : Option Nat := none
  maxOutstanding : Nat := 1024
  earlyCapacity : Nat := 4096
  queueCapacity : Nat := 1024
  pollIntervalMs : Nat := 100
  reconnectIntervalMs : Nat := 1000
  deriving DecidableEq, Repr

/-- The configuration that settings describe, if they are valid. -/
def Settings.nodeConfig (s : Settings) : Except SettingsError NodeConfig := do
  s.validate
  let members ← s.initialMembers
  return {
    here := s.here
    members
    transport := {
      maxFrameSize := s.transport.maxFrameSize
      bufferSize := s.transport.bufferSize
      nodelay := s.transport.nodelay }
    fifoLimit := s.fifo.maxBufferedPerSource
    maxOutstanding := s.causal.maxOutstanding
    earlyCapacity := s.causal.earlyAckCapacity
    queueCapacity := s.runtime.commandQueueCapacity
    pollIntervalMs := s.runtime.pollIntervalMs
    reconnectIntervalMs := s.runtime.reconnectIntervalMs }

/-- A packet of one of the ordering layers. -/
inductive OrderPacket where
  | fifo (packet : FifoPacket)
  | causal (packet : CausalPacket)
  deriving DecidableEq, Repr

/-- A causal send that was not decided because the window was full. -/
structure ParkedSend where
  ticket : Ticket
  request : CausalRequest
  deriving DecidableEq, Repr

structure HeldPacket where
  source : Proc
  packet : OrderPacket
  deriving DecidableEq, Repr

structure Node where
  /-- The local process. -/
  here : Proc
  queue : BoundedQueue Command
  fifo : FifoLayer
  causal : CausalLayer
  membership : MembershipLayer
  peers : PeerTable
  transport : Transport
  /-- Oldest first. -/
  parked : List ParkedSend := []
  /-- Packets of processes outside the view, in the order they came. -/
  held : List HeldPacket := []
  /-- No command is accepted any more. -/
  stopping : Bool := false
  /-- The loop has ended. -/
  exited : Bool := false
  /-- All events reported so far, oldest first. -/
  events : List NodeEvent := []
  /-- All calls answered so far, oldest first. -/
  answers : List Answer := []

namespace Node

/-- Most commands taken up in one turn of the loop. -/
def commandBatch : Nat := 256

/-- Most packets held. One more drives out the oldest. -/
def heldLimit : Nat := 16384

def report (n : Node) (events : List NodeEvent) : Node := { n with events := n.events ++ events }

def reply (n : Node) (t : Ticket) (result : Except NodeError Reply) : Node :=
  { n with answers := n.answers ++ [⟨t, result⟩] }

def ensure (n : Node) (p : Proc) : Node :=
  let (peers, transport) := n.peers.ensure p n.transport
  { n with peers, transport }

def ensureAll (n : Node) (ps : List Proc) : Node := ps.foldl ensure n

def transmit (n : Node) (p : Proc) (e : Envelope) : Node :=
  let (peers, transport) := n.peers.send p e.encode n.transport
  { n with peers, transport }

/-- Carries out what the FIFO layer asks for. -/
def applyFifo (n : Node) (o : FifoOutput) : Node :=
  let n := o.directives.foldl ensureAll n
  let n := o.sends.foldl (fun n s => n.transmit s.destination (.fifo s.packet)) n
  n.report (o.delivered.map .fifoDelivered)

/-- Carries out what the causal layer asks for. -/
def applyCausal (n : Node) (o : CausalOutput) : Node :=
  let n := o.directives.foldl ensureAll n
  let n := o.sends.foldl (fun n s => n.transmit s.destination (.causal s.packet)) n
  n.report (o.delivered.map .causalDelivered)

/-- Gives a causal send to the layer. If the window is full, the send is returned. -/
def tryCausal (n : Node) (s : ParkedSend) : Except ParkedSend Node :=
  match n.causal.send s.request.payload s.request.destinations with
  | .ok (o, causal) => .ok (({ n with causal }.reply s.ticket (.ok .sent)).applyCausal o)
  | .error (.windowFull _ request) => .error { s with request }
  | .error (.order e) => .ok (n.reply s.ticket (.error (.order e)))

/-- Decides parked sends in order, as long as the window is not full. -/
def admitAll (n : Node) : List ParkedSend → Node
  | [] => { n with parked := [] }
  | s :: parked =>
    if n.causal.hasCapacity then
      match n.tryCausal s with
      | .ok n => n.admitAll parked
      | .error s => { n with parked := s :: parked }
    else { n with parked := s :: parked }

def admitParked (n : Node) : Node := n.admitAll n.parked

/-- Takes up a causal send, behind those that are parked. -/
def causalSend (n : Node) (s : ParkedSend) : Node :=
  if n.parked = [] then
    match n.tryCausal s with
    | .ok n => n
    | .error s => { n with parked := [s] }
  else { n with parked := n.parked ++ [s] }

/-- Keeps a packet until its source is in the view. -/
def hold (n : Node) (h : HeldPacket) : Node :=
  { n with held := n.held.drop (n.held.length + 1 - heldLimit) ++ [h] }

/-- Hands a packet to its layer, or keeps it if the source is no member. -/
def routePacket (n : Node) (h : HeldPacket) : Node :=
  match h.packet with
  | .fifo packet =>
    if h.source ∉ n.fifo.members then n.hold h
    else
      match n.fifo.deliver h.source packet with
      | .ok (o, fifo) => { n with fifo }.applyFifo o
      | .error _ => n
  | .causal packet =>
    if h.source ∉ n.causal.members then n.hold h
    else
      match n.causal.deliver h.source packet with
      | .ok (o, causal) => { n with causal }.applyCausal o
      | .error _ => n

/-- Routes all held packets anew. -/
def replayHeld (n : Node) : Node := n.held.foldl routePacket { n with held := [] }

/-- Moves the layers to a view and announces it. -/
def install (n : Node) (v : View) : Node :=
  let n := match n.fifo.applyView v.members with
    | .ok (o, fifo) => { n with fifo }.applyFifo o
    | .error _ => n
  let n := match n.causal.applyView v.members with
    | .ok (o, causal) => { n with causal }.applyCausal o
    | .error _ => n
  ((n.report [.newView v]).replayHeld).admitParked

def direct (n : Node) : MembershipDirective → Node
  | .joinList members => n.ensureAll members
  | .added p => n.ensure p
  | .removed p =>
    if p = n.here then n
    else
      let (peers, transport) := n.peers.forget p n.transport
      { n with peers, transport }

/-- Carries out what the membership layer asks for. -/
def applyMembership (n : Node) (o : MembershipOutput) : Node :=
  let n := o.directives.foldl direct n
  let n := o.transfers.foldl (fun n (p, t) => n.transmit p (.state t)) n
  let n := o.newViews.foldl install n
  n.report (o.abcast.map .abcast)

def route (n : Node) (source : Proc) : Envelope → Node
  | .state t =>
    match n.membership.deliverState t with
    | .ok (o, membership) => { n with membership }.applyMembership o
    | .error _ => n
  | .fifo packet => n.routePacket ⟨source, .fifo packet⟩
  | .causal packet => n.routePacket ⟨source, .causal packet⟩

/-- Takes up a frame. One that holds no envelope is dropped. -/
def onFrame (n : Node) (c : ConnectionId) (payload : Bytes) : Node :=
  match n.peers.ownerOf? c with
  | none => n
  | some source =>
    match Envelope.decode payload with
    | .ok e => n.route source e
    | .error _ => n

def onEstablished (n : Node) (c : ConnectionId) (p : Proc) (key : Option ConnectionKey) : Node :=
  let (events, peers, transport) := n.peers.onEstablished c p key n.transport
  { n with peers, transport }.report events

def onLost (n : Node) (c : ConnectionId) (remote : Option Proc) (reason : String) : Node :=
  let (events, peers) := n.peers.onLost c remote reason
  { n with peers }.report events

def onTransportEvent (n : Node) : TransportEvent → Node
  | .accepted c remote key => n.onEstablished c remote (some key)
  | .connected c remote key => n.onEstablished c remote key
  | .closed c remote => n.onLost c remote "closed by peer"
  | .broken c remote cause => n.onLost c remote cause.message
  | .received c payload => n.onFrame c payload
  | .ready c =>
    let (peers, transport) := n.peers.onReady c n.transport
    { n with peers, transport }

def onCommand (n : Node) : Command → Node
  | .fifoSend payload dests =>
    match n.fifo.send payload (dests.resolve n.fifo.members) with
    | .ok (o, fifo) => { n with fifo }.applyFifo o
    | .error _ => n
  | .causalSend t payload dests => n.causalSend ⟨t, payload, dests.resolve n.causal.members⟩
  | .join p => n.applyMembership (n.membership.join p)
  | .remove p => n.applyMembership (n.membership.remove p)
  | .adeliver op =>
    let (o, membership) := n.membership.adeliver op
    { n with membership }.applyMembership o
  | .view t => n.reply t (.ok (.view n.membership.view))

/-- Takes up commands that wait, at most a batch. -/
def takeCommands (n : Node) : Node :=
  let (commands, queue) := n.queue.popBatch commandBatch
  commands.foldl onCommand { n with queue }

/-- Sees to it that the members are connected. -/
def reconnect (n : Node) : Node :=
  match n.membership.view with
  | some v => n.ensureAll v.members
  | none => n

/-- The part of a turn behind the commands. `overdue` tells whether it is time to reconnect. -/
def takeEvents (n : Node) (ready : List Readiness) (overdue : Bool) : Node :=
  let (events, transport) := n.transport.poll ready
  let n := (events.foldl onTransportEvent { n with transport }).admitParked
  if overdue then n.reconnect else n

/-- One turn of the loop. -/
def turn (n : Node) (ready : List Readiness) (overdue : Bool) : Node :=
  n.takeCommands.takeEvents ready overdue

/-- Ends the loop. All calls that wait are told of the shutdown. -/
def finish (n : Node) : Node :=
  let (commands, queue) := n.queue.drain
  let tickets := n.parked.map (·.ticket) ++ commands.filterMap Command.ticket?
  tickets.foldl (fun n t => n.reply t (.error .shutdown))
    { n with queue, parked := [], stopping := true, exited := true }

/-- Accepts a command, unless the node is stopping or too many commands wait. -/
def submit (n : Node) (c : Command) : Except NodeError Node :=
  if n.stopping then .error .shutdown
  else
    match n.queue.push? c with
    | some queue => .ok { n with queue }
    | none => .error (.busy n.queue.capacity)

/-- Makes a call. One that waits for its reply is refused on the thread of the node, which would
wait for itself. -/
def request (n : Node) (caller : Caller) (c : Command) : Except NodeError Node :=
  if caller = .handler ∧ c.ticket?.isSome then .error .onNodeThread else n.submit c

/-- The answer to a call. -/
def answer? (n : Node) (t : Ticket) : Option (Except NodeError Reply) :=
  (n.answers.find? (·.ticket = t)).map (·.result)

/-- Whether the next turn has nothing to do by itself. -/
def isIdle (n : Node) : Bool := n.queue.isEmpty && !n.transport.isBusy

/-- Binds the transport and takes up the first view. Members equal to the configured identity are
the local process, whatever port it is bound to. -/
def start (c : NodeConfig) (network : Network) : Except NodeError Node := do
  let transport ← (Transport.bind c.here c.transport network).mapError .net
  let here := transport.here
  let members := c.members.map fun p => if p = c.here then here else p
  match BoundedQueue.empty? c.queueCapacity with
  | none => throw .noQueue
  | some queue =>
    let n : Node := {
      here
      queue
      fifo := { here, limit := c.fifoLimit }
      causal := { here, maxOutstanding := c.maxOutstanding, earlyCapacity := c.earlyCapacity }
      membership := { here }
      peers := { here }
      transport }
    let (o, membership) ← (n.membership.init members).mapError .membership
    return { n with membership }.applyMembership o

end Node

end Multicast
