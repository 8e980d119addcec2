import Multicast.Node.Basic
import Multicast.Proofs.Fifo.Stream
import Multicast.Proofs.Node.Linked
import Multicast.Proofs.Wire.Envelopes

/-! A turn of a node that exchanges FIFO packets with a process over a connection that is up: what
it hands over of what it was asked to send, and what it delivers of what has come in. -/
namespace Multicast

open TransportEvent (IsTraffic asks payloads)

namespace FifoPacket

/-- What goes into a frame. -/
def message (packet : FifoPacket) : Bytes := (Envelope.fifo packet).encode

/-- Whether a packet gets to its destination: its frame is not too large. -/
def isSendable (max : Nat) (packet : FifoPacket) : Bool := fits max packet.message

end FifoPacket

namespace NodeEvent

/-- The payloads of `p` that were delivered in FIFO order. -/
def fifoFrom (p : Proc) (events : List NodeEvent) : List Bytes :=
  events.filterMap fun
    | .fifoDelivered d => if d.source = p then some d.payload else none
    | _ => none

variable {events more : List NodeEvent} {p : Proc} {o : FifoOutput}

theorem fifoFrom_append : fifoFrom p (events ++ more) = fifoFrom p events ++ fifoFrom p more :=
  List.filterMap_append ..

theorem fifoFrom_delivered : fifoFrom p (o.delivered.map .fifoDelivered) = o.deliveredFrom p := by
  rw [fifoFrom, FifoOutput.deliveredFrom]
  induction o.delivered with
  | nil => rfl
  | cons d ds ih =>
    by_cases h : d.source = p <;> simp_all

end NodeEvent

/-- The one command that is submitted here. -/
def Command.fifoTo (q : Proc) (payload : Bytes) : Command := .fifoSend payload (.processes [q])

theorem FifoLayer.send_single {l : FifoLayer} {q : Proc} {k : Nat} (hl : l.initialized = true)
    (hk : l.sent.get? q = some k) (payload : Bytes) : ∃ l',
      l.send payload [q] = .ok ({ sends := [⟨q, ⟨k, payload⟩⟩] }, l') ∧
      l'.sent.get? q = some (k + 1) ∧ l'.initialized = l.initialized ∧ l'.limit = l.limit ∧
      l'.members = l.members ∧ l'.sources = l.sources := by
  have hknown : l.sent.has q = true := Table.has_iff.mpr ⟨k, hk⟩
  have hone : Proc.firsts [q] = [q] := rfl
  have hsend : l.send payload [q] = .ok ({ sends := [⟨q, ⟨k, payload⟩⟩] },
      { l with
        sent := l.sent.map fun e => if e.1 ∈ [q] then (e.1, e.2 + 1) else e
        stats := { l.stats with sent := l.stats.sent + 1 } }) := by
    simp [send, hl, hone, hknown, hk]
  obtain ⟨-, -, hsent, hinitialized, hlimit, hmembers, hsources⟩ := sends hsend
  refine ⟨_, hsend, ?_, hinitialized, hlimit, hmembers, hsources⟩
  rw [hsent, Table.get?_map (fun p m => if p ∈ Proc.firsts [q] then m + 1 else m), hk, hone]
  simp

/-- A packet from a source that the layer knows is always taken: without a limit there is room for
those that come early. -/
theorem FifoLayer.deliver_taken {l : FifoLayer} {p : Proc} {s : FifoSource}
    (hl : l.initialized = true) (hlimit : l.limit = none) (hs : l.sources.get? p = some s)
    (packet : FifoPacket) :
    ∃ o l', l.deliver p packet = .ok (o, l') ∧ o.directives = [] := by
  have hr : l.Receipt p s packet (l.deliver p packet) := receipt hl hs
  generalize l.deliver p packet = r at hr
  cases hr with
  | again => exact ⟨_, _, rfl, rfl⟩
  | full early fresh bounded =>
    rw [hlimit] at bounded
    cases bounded
  | early => exact ⟨_, _, rfl, rfl⟩
  | next => exact ⟨_, _, rfl, rfl⟩

namespace Node

/-- The node and `q` are in one view, no view change is under way, and `q` is reached over `c`. -/
structure Joined (q : Proc) (c : ConnectionId) (max asked : Nat) (n : Node) (conn : Connection) :
    Prop where
  linked : n.peers.Linked q c max asked n.transport conn
  initialized : n.fifo.initialized = true
  unlimited : n.fifo.limit = none
  member : q ∈ n.fifo.members
  unparked : n.parked = []
  reachable : ∀ v, n.membership.view = some v → ∀ p ∈ v.members,
    (n.peers.peer p).isReachable = true

/-- Of the stream of `q`, numbered from `base`, the packets `heard` have come in. What could be
delivered of it was, after `earlier`. -/
structure Awaits (q : Proc) (base : Nat) (sent earlier : List Bytes) (heard : List FifoPacket)
    (n : Node) (s : FifoSource) (got : List Bytes) : Prop where
  source : n.fifo.sources.get? q = some s
  follows : s.Follows base sent got
  has : ∀ m, s.Has base m ↔ ∃ packet ∈ heard, packet.sequence = m
  delivered : NodeEvent.fifoFrom q n.events = earlier ++ got

variable {n n' : Node} {conn conn' : Connection} {q : Proc} {c : ConnectionId}
  {max asked asked' k base : Nat} {payload : Bytes} {sent earlier got : List Bytes}
  {heard : List FifoPacket} {packet : FifoPacket} {s : FifoSource}

theorem Joined.next (h : Joined q c max asked n conn)
    (hlinked : n'.peers.Linked q c max asked' n'.transport conn')
    (hothers : ∀ p, p ≠ q → n'.peers.peer p = n.peers.peer p)
    (hfifo : n'.fifo.initialized = n.fifo.initialized ∧ n'.fifo.limit = n.fifo.limit ∧
      n'.fifo.members = n.fifo.members)
    (hrest : n'.parked = n.parked ∧ n'.membership = n.membership) :
    Joined q c max asked' n' conn' := by
  obtain ⟨hinitialized, hlimit, hmembers⟩ := hfifo
  obtain ⟨hparked, hmembership⟩ := hrest
  refine ⟨hlinked, hinitialized.trans h.initialized, hlimit.trans h.unlimited,
    hmembers ▸ h.member, hparked.trans h.unparked, fun v hv p hp => ?_⟩
  by_cases hpq : p = q
  · rw [hpq]
    exact hlinked.reachable
  · rw [hothers p hpq]
    exact h.reachable v (hmembership ▸ hv) p hp

/-- A payload takes the next number, and its packet joins those that wait. -/
theorem onCommand_joined (h : Joined q c max asked n conn) (hk : n.fifo.sent.get? q = some k)
    (payload : Bytes) :
    ∃ fifo peers transport conn' handed,
      n.onCommand (.fifoTo q payload) = { n with fifo, peers, transport } ∧
      Joined q c max asked { n with fifo, peers, transport } conn' ∧
      n.peers.Hands q c max asked peers n.transport transport conn conn'
        [FifoPacket.message ⟨k, payload⟩] handed ∧
      fifo.sources = n.fifo.sources ∧ fifo.sent.get? q = some (k + 1) := by
  obtain ⟨fifo, hsend, hsent, hinitialized, hlimit, hmembers, hsources⟩ :=
    FifoLayer.send_single h.initialized hk payload
  obtain ⟨peers, transport, conn', handed, htransmit, hhands⟩ :=
    PeerTable.send_linked h.linked (FifoPacket.message ⟨k, payload⟩)
  refine ⟨fifo, peers, transport, conn', handed, ?_,
    h.next hhands.linked hhands.others ⟨hinitialized, hlimit, hmembers⟩ ⟨rfl, rfl⟩, hhands,
    hsources, hsent⟩
  simp only [onCommand, Command.fifoTo, Destinations.resolve, hsend, applyFifo, List.foldl_nil,
    List.foldl_cons, transmit, report, List.map_nil, List.append_nil]
  rw [← FifoPacket.message, htransmit]

theorem onCommands_joined (payloads : List Bytes) (h : Joined q c max asked n conn)
    (hk : n.fifo.sent.get? q = some k) : ∃ fifo peers transport conn' handed,
      (payloads.map (Command.fifoTo q)).foldl onCommand n = { n with fifo, peers, transport } ∧
      Joined q c max asked { n with fifo, peers, transport } conn' ∧
      n.peers.Hands q c max asked peers n.transport transport conn conn'
        ((numbered k payloads).map FifoPacket.message) handed ∧
      fifo.sources = n.fifo.sources ∧ fifo.sent.get? q = some (k + payloads.length) := by
  induction payloads generalizing n conn k with
  | nil =>
    exact ⟨n.fifo, n.peers, n.transport, conn, [], rfl, h, h.linked.hands_nothing, rfl, hk⟩
  | cons payload payloads ih =>
    obtain ⟨fifo₁, peers₁, transport₁, conn₁, handed₁, hcommand, hjoined₁, hhands₁, hsources₁,
      hk₁⟩ := onCommand_joined h hk payload
    obtain ⟨fifo₂, peers₂, transport₂, conn₂, handed₂, hcommands, hjoined₂, hhands₂, hsources₂,
      hk₂⟩ := ih hjoined₁ hk₁
    refine ⟨fifo₂, peers₂, transport₂, conn₂, handed₁ ++ handed₂, ?_, hjoined₂,
      hhands₁.trans hhands₂, hsources₂.trans hsources₁, ?_⟩
    · rw [List.map_cons, List.foldl_cons, hcommand, hcommands]
    · rw [hk₂, List.length_cons, Nat.add_assoc, Nat.add_comm 1]

/-- The connection asks for a message, and gets one if one waits. -/
theorem onReady_joined (h : Joined q c max (asked + 1) n conn) : ∃ peers transport conn' handed,
    n.onTransportEvent (.ready c) = { n with peers, transport } ∧
    Joined q c max asked { n with peers, transport } conn' ∧
    n.peers.Hands q c max asked peers n.transport transport conn conn' [] handed := by
  obtain ⟨peers, transport, conn', handed, hready, hhands⟩ := PeerTable.onReady_linked h.linked
  refine ⟨peers, transport, conn', handed, ?_,
    h.next hhands.linked hhands.others ⟨rfl, rfl, rfl⟩ ⟨rfl, rfl⟩, hhands⟩
  simp only [onTransportEvent, hready]

/-- A packet of the stream that `q` sends comes in. -/
theorem onReceived_joined (h : Joined q c max asked n conn) (hmax : max < UInt32.size)
    (ha : Awaits q base sent earlier heard n s got) (hsent : packet ∈ numbered base sent)
    (hsequence : packet.sequence < 2 ^ 64) (hfits : packet.isSendable max = true) :
    ∃ fifo events s' got',
      n.onTransportEvent (.received c packet.message) = { n with fifo, events } ∧
      Joined q c max asked { n with fifo, events } conn ∧
      Awaits q base sent earlier (heard ++ [packet]) { n with fifo, events } s' got' ∧
      fifo.sent = n.fifo.sent := by
  obtain ⟨o, fifo, hdeliver, hnone⟩ :=
    FifoLayer.deliver_taken h.initialized h.unlimited ha.source packet
  have hreceives : n.fifo.Receives q o fifo := FifoLayer.receives hdeliver
  have hafter := FifoLayer.after_of_ok (c := .deliver q packet) hdeliver
  obtain ⟨s', hs', hfollows, hhas, -⟩ :=
    FifoGroup.followed_receipt h.initialized ha.source ha.follows hsent
  rw [hafter.1] at hs'
  rw [hafter.2] at hfollows hhas
  have hlength : packet.payload.length < 2 ^ 64 := by
    have hmessage : packet.message.length ≤ max := by
      simpa [FifoPacket.isSendable, fits] using hfits
    have hpayload := Envelope.length_fifo packet
    change max < 4294967296 at hmax
    change packet.payload.length ≤ packet.message.length at hpayload
    omega
  have hdecode : Envelope.decode packet.message = .ok (.fifo packet) :=
    Envelope.decode_fifo hsequence hlength
  refine ⟨fifo, n.events ++ o.delivered.map .fifoDelivered, s', got ++ o.deliveredFrom q, ?_,
    ?_, ⟨hs', hfollows, ?_, ?_⟩, hreceives.sent⟩
  · simp only [onTransportEvent, onFrame, h.linked.owner, hdecode, route, routePacket,
      h.member, not_true_eq_false, if_false, hdeliver, applyFifo, hnone, hreceives.sends,
      List.foldl_nil, report]
  · exact h.next h.linked (fun _ _ => rfl)
      ⟨hreceives.initialized, hreceives.limit, hreceives.members⟩ ⟨rfl, rfl⟩
  · intro m
    rw [hhas, ha.has]
    simp [eq_comm, or_and_right, exists_or]
  · change NodeEvent.fifoFrom q (n.events ++ o.delivered.map .fifoDelivered) = _
    rw [NodeEvent.fifoFrom_append, ha.delivered, NodeEvent.fifoFrom_delivered, List.append_assoc]

theorem onEvents_joined {events : List TransportEvent} {now : List FifoPacket}
    (hmax : max < UInt32.size) (htraffic : ∀ event ∈ events, IsTraffic c event)
    (hnow : payloads events = now.map FifoPacket.message)
    (h : Joined q c max (asks events) n conn) (ha : Awaits q base sent earlier heard n s got)
    (hsent : ∀ packet ∈ now, packet ∈ numbered base sent ∧ packet.sequence < 2 ^ 64 ∧
      packet.isSendable max = true) :
    ∃ fifo peers transport events' conn' handed s' got',
      events.foldl onTransportEvent n = { n with fifo, peers, transport, events := events' } ∧
      Joined q c max 0 { n with fifo, peers, transport, events := events' } conn' ∧
      n.peers.Hands q c max 0 peers n.transport transport conn conn' [] handed ∧
      fifo.sent = n.fifo.sent ∧
      Awaits q base sent earlier (heard ++ now) { n with fifo, peers, transport, events := events' }
        s' got' := by
  induction events generalizing n conn now heard s got with
  | nil =>
    obtain rfl : now = [] := (List.map_eq_nil_iff.mp hnow.symm)
    refine ⟨n.fifo, n.peers, n.transport, n.events, conn, [], s, got, rfl, h,
      h.linked.hands_nothing, rfl, ?_⟩
    rwa [List.append_nil]
  | cons event events ih =>
    obtain ⟨hevent, hevents⟩ := List.forall_mem_cons.mp htraffic
    rcases hevent with rfl | ⟨payload, rfl⟩
    · have hasked : Joined q c max (asks events + 1) n conn := by
        simpa [asks, TransportEvent.isReady] using h
      obtain ⟨peers₁, transport₁, conn₁, handed₁, hready, hjoined₁, hhands₁⟩ :=
        onReady_joined hasked
      obtain ⟨fifo₂, peers₂, transport₂, events₂, conn₂, handed₂, s₂, got₂, hfold, hjoined₂,
        hhands₂, hsent₂, ha₂⟩ := ih hevents (by simpa [payloads] using hnow) hjoined₁
          ⟨ha.source, ha.follows, ha.has, ha.delivered⟩ hsent
      refine ⟨fifo₂, peers₂, transport₂, events₂, conn₂, handed₁ ++ handed₂, s₂, got₂, ?_, hjoined₂,
        hhands₁.trans hhands₂, hsent₂, ha₂⟩
      rw [List.foldl_cons, hready, hfold]
    · obtain ⟨packet, now, rfl, rfl, hlater⟩ := List.map_eq_cons_iff.mp
        (hnow.symm.trans (by simp [payloads] : payloads (.received c payload :: events) =
          payload :: payloads events))
      obtain ⟨⟨hnumbered, hsequence, hfits⟩, hsent⟩ := List.forall_mem_cons.mp hsent
      have hasked : Joined q c max (asks events) n conn := by
        simpa [asks, TransportEvent.isReady] using h
      obtain ⟨fifo₁, events₁, s₁, got₁, hreceived, hjoined₁, ha₁, hsent₁⟩ :=
        onReceived_joined hasked hmax ha hnumbered hsequence hfits
      obtain ⟨fifo₂, peers₂, transport₂, events₂, conn₂, handed₂, s₂, got₂, hfold, hjoined₂,
        hhands₂, hsent₂, ha₂⟩ := ih hevents hlater.symm hjoined₁ ha₁ hsent
      refine ⟨fifo₂, peers₂, transport₂, events₂, conn₂, handed₂, s₂, got₂, ?_, hjoined₂,
        hhands₂, hsent₂.trans hsent₁, ?_⟩
      · rw [List.foldl_cons, hreceived, hfold]
      · rwa [List.append_assoc] at ha₂

theorem admitParked_eq (h : n.parked = []) : n.admitParked = n := by
  rw [admitParked, h]
  change { n with parked := [] } = n
  rw [← h]

/-- Nothing is done about processes that are or will be connected. -/
theorem ensureAll_reachable {ps : List Proc}
    (h : ∀ p ∈ ps, (n.peers.peer p).isReachable = true) : ∃ peers,
      n.ensureAll ps = { n with peers } ∧ (∀ p, peers.peer p = n.peers.peer p) ∧
        peers.owners = n.peers.owners := by
  induction ps generalizing n with
  | nil => exact ⟨n.peers, rfl, fun _ => rfl, rfl⟩
  | cons p ps ih =>
    obtain ⟨hp, hps⟩ := List.forall_mem_cons.mp h
    have hensure : n.ensure p = { n with peers := n.peers.set p (n.peers.peer p) } := by
      rw [ensure, PeerTable.ensure_reachable hp]
    have hsame : ∀ r, (n.peers.set p (n.peers.peer p)).peer r = n.peers.peer r :=
      fun _ => PeerTable.peer_set_peer
    have hrest : ∀ r ∈ ps, ((n.peers.set p (n.peers.peer p)).peer r).isReachable = true := by
      intro r hr
      rw [hsame]
      exact hps r hr
    obtain ⟨peers, hall, hpeers, howners⟩ :=
      ih (n := { n with peers := n.peers.set p (n.peers.peer p) }) hrest
    refine ⟨peers, ?_, fun r => (hpeers r).trans (hsame r), howners⟩
    rw [ensureAll, List.foldl_cons, hensure]
    exact hall

theorem reconnect_joined (h : Joined q c max asked n conn) : ∃ peers,
    n.reconnect = { n with peers } ∧ (∀ p, peers.peer p = n.peers.peer p) ∧
      Joined q c max asked { n with peers } conn := by
  have hsame : ∃ peers, n.reconnect = { n with peers } ∧
      (∀ p, peers.peer p = n.peers.peer p) ∧ peers.owners = n.peers.owners := by
    unfold reconnect
    split
    · rename_i v hv
      exact ensureAll_reachable (h.reachable v hv)
    · exact ⟨n.peers, rfl, fun _ => rfl, rfl⟩
  obtain ⟨peers, hreconnect, hpeers, howners⟩ := hsame
  have howner : peers.ownerOf? c = n.peers.ownerOf? c := by
    rw [PeerTable.ownerOf?, howners, PeerTable.ownerOf?]
  exact ⟨peers, hreconnect, hpeers, h.next (h.linked.same hpeers howner) (fun p _ => hpeers p)
    ⟨rfl, rfl, rfl⟩ ⟨rfl, rfl⟩⟩

theorem takeCommands_eq : n.takeCommands = (n.queue.items.take commandBatch).foldl onCommand
    { n with queue := (n.queue.popBatch commandBatch).2 } := rfl

/-- Some of the payloads that wait are numbered and queued for `q`. -/
theorem takeCommands_joined {waiting : List Bytes} (h : Joined q c max 0 n conn)
    (hqueue : n.queue.items = waiting.map (Command.fifoTo q)) (hk : n.fifo.sent.get? q = some k) :
    ∃ n' conn' taken left handed, n.takeCommands = n' ∧ Joined q c max 0 n' conn' ∧
      waiting = taken ++ left ∧ n'.queue.items = left.map (Command.fifoTo q) ∧
      n'.fifo.sent.get? q = some (k + taken.length) ∧
      n.peers.Hands q c max 0 n'.peers n.transport n'.transport conn conn'
        ((numbered k taken).map FifoPacket.message) handed ∧
      n'.fifo.sources = n.fifo.sources ∧ n'.events = n.events := by
  let queue := (n.queue.popBatch commandBatch).2
  have hleft : queue.items = (waiting.drop commandBatch).map (Command.fifoTo q) := by
    change n.queue.items.drop commandBatch = _
    rw [hqueue, List.map_drop]
  have hjoined : Joined q c max 0 { n with queue } conn :=
    h.next h.linked (fun _ _ => rfl) ⟨rfl, rfl, rfl⟩ ⟨rfl, rfl⟩
  obtain ⟨fifo, peers, transport, conn', handed, hcommands, hjoined', hhands, hsources, hk'⟩ :=
    onCommands_joined (waiting.take commandBatch) hjoined hk
  refine ⟨_, conn', waiting.take commandBatch, waiting.drop commandBatch, handed, ?_, hjoined',
    (List.take_append_drop _ _).symm, hleft, hk', hhands, hsources, rfl⟩
  rw [takeCommands_eq, hqueue, ← List.map_take]
  exact hcommands

/-- The events of a poll are news that the node has yet to heed. -/
theorem poll_joined {net : Transport} {events : List TransportEvent} {frames later : List Bytes}
    {more : Bytes} (h : Joined q c max 0 n conn)
    (hserves : n.transport.Serves c max more net conn conn' events frames later) :
    Joined q c max (asks events) { n with transport := { net with pending := [] } } conn' ∧
      ∀ event ∈ events, IsTraffic c event := by
  obtain ⟨l, hl, hc, hready⟩ := h.linked.link
  obtain ⟨hconn, hid, hsteady, hlimit, hdirty⟩ := hserves.carries
  have hasked : l.ready.toNat + asks events = conn'.readySignalled.toNat := by
    rw [hserves.goes.asked, ← hready, Nat.add_zero]
  constructor
  · exact h.next ⟨⟨l, hl, hc, hasked⟩, h.linked.owner, hconn, hid, hsteady, hlimit, hdirty⟩
      (fun _ _ => rfl) ⟨rfl, rfl, rfl⟩ ⟨rfl, rfl⟩
  · have htraffic := hserves.goes.traffic
    rwa [h.linked.carries.id] at htraffic

/-- Some messages are handed over, and some of the packets that are expected come in. -/
theorem takeEvents_joined {more : Bytes} {coming : List FifoPacket} (hmax : max < UInt32.size)
    (h : Joined q c max 0 n conn) (hpending : n.transport.pending = [])
    (hcoming : conn.Expects max more (coming.map FifoPacket.message))
    (hnumbered : ∀ packet ∈ coming, packet ∈ numbered base sent ∧ packet.sequence < 2 ^ 64)
    (ha : Awaits q base sent earlier heard n s got) (times : Nat) (overdue : Bool) :
    ∃ n' conn' handed now later s' got',
      n.takeEvents (List.replicate times (.connection c)) overdue = n' ∧
      Joined q c max 0 n' conn' ∧ n'.transport.pending = [] ∧ n'.queue = n.queue ∧
      n'.fifo.sent = n.fifo.sent ∧ n.peers.Passes q max n'.peers conn conn' [] handed ∧
      coming = now ++ later ∧ conn'.Expects max more (later.map FifoPacket.message) ∧
      Awaits q base sent earlier (heard ++ now) n' s' got' := by
  obtain ⟨net, conn₁, events, left, hpoll, hserves⟩ :=
    Transport.serves_poll h.linked.carries hmax hcoming hpending times
  obtain ⟨now, later, rfl, hnow, rfl⟩ := List.map_eq_append_iff.mp hserves.frames
  obtain ⟨hjoined₁, htraffic⟩ := poll_joined h hserves
  have hsent : ∀ packet ∈ now, packet ∈ numbered base sent ∧ packet.sequence < 2 ^ 64 ∧
      packet.isSendable max = true := by
    intro packet hpacket
    have hmem := List.mem_append_left later hpacket
    obtain ⟨hin, hsequence⟩ := hnumbered packet hmem
    have hfits := hcoming.fit _ (List.mem_map_of_mem hmem)
    exact ⟨hin, hsequence, by simpa [FifoPacket.isSendable, fits] using hfits⟩
  obtain ⟨fifo, peers, transport, events', conn₂, handed, s', got', hevents, hjoined₂, hhands,
    hsent₂, ha₂⟩ := onEvents_joined hmax htraffic hnow.symm hjoined₁
      ⟨ha.source, ha.follows, ha.has, ha.delivered⟩ hsent
  have hpending₂ : transport.pending = [] := hhands.pending
  have hexpects := hserves.expects.same hhands.ahead
  have hpasses₂ : n.peers.Passes q max peers conn conn₂ [] handed :=
    ⟨hhands.outbox, by rw [hhands.output, hserves.goes.output], hhands.others⟩
  have hparked : admitParked { n with fifo, peers, transport, events := events' } =
      { n with fifo, peers, transport, events := events' } := admitParked_eq h.unparked
  have htaken : n.takeEvents (List.replicate times (.connection c)) overdue =
      if overdue then reconnect { n with fifo, peers, transport, events := events' }
      else { n with fifo, peers, transport, events := events' } := by
    simp only [takeEvents, hpoll, hevents, hparked]
  obtain ⟨peers', hreconnect, hpeers, hjoined₃⟩ := reconnect_joined hjoined₂
  cases overdue with
  | false =>
    exact ⟨_, conn₂, handed, now, later, s', got', htaken, hjoined₂, hpending₂, rfl, hsent₂,
      hpasses₂, rfl, hexpects, ha₂⟩
  | true =>
    refine ⟨_, conn₂, handed, now, later, s', got', htaken.trans hreconnect, hjoined₃, hpending₂,
      rfl, hsent₂, ⟨?_, hpasses₂.output, ?_⟩, rfl, hexpects,
      ⟨ha₂.source, ha₂.follows, ha₂.has, ha₂.delivered⟩⟩
    · change _ = _ ++ (peers'.peer q).outbox.filter _
      rw [hpeers]
      exact hpasses₂.outbox
    · exact fun p hp => (hpeers p).trans (hpasses₂.others p hp)

/-- In a turn some of the payloads that wait are numbered and queued for `q`, some messages are
handed over, and some of the packets that are expected come in. -/
theorem turn_joined {more : Bytes} {waiting : List Bytes} {coming : List FifoPacket}
    (hmax : max < UInt32.size) (h : Joined q c max 0 n conn) (hpending : n.transport.pending = [])
    (hqueue : n.queue.items = waiting.map (Command.fifoTo q)) (hk : n.fifo.sent.get? q = some k)
    (hcoming : conn.Expects max more (coming.map FifoPacket.message))
    (hnumbered : ∀ packet ∈ coming, packet ∈ numbered base sent ∧ packet.sequence < 2 ^ 64)
    (ha : Awaits q base sent earlier heard n s got) (times : Nat) (overdue : Bool) :
    ∃ n' conn' taken left handed now later s' got',
      n.turn (List.replicate times (.connection c)) overdue = n' ∧
      Joined q c max 0 n' conn' ∧ n'.transport.pending = [] ∧
      waiting = taken ++ left ∧ n'.queue.items = left.map (Command.fifoTo q) ∧
      n'.fifo.sent.get? q = some (k + taken.length) ∧
      n.peers.Passes q max n'.peers conn conn' ((numbered k taken).map FifoPacket.message) handed ∧
      coming = now ++ later ∧ conn'.Expects max more (later.map FifoPacket.message) ∧
      Awaits q base sent earlier (heard ++ now) n' s' got' := by
  obtain ⟨n₁, conn₁, taken, left, handed₁, htaken, hjoined₁, hwaiting, hqueue₁, hk₁, hhands₁,
    hsources₁, hevents₁⟩ := takeCommands_joined h hqueue hk
  have ha₁ : Awaits q base sent earlier heard n₁ s got :=
    ⟨hsources₁ ▸ ha.source, ha.follows, ha.has, hevents₁ ▸ ha.delivered⟩
  obtain ⟨n₂, conn₂, handed₂, now, later, s₂, got₂, hevents, hjoined₂, hpending₂, hqueue₂, hsent₂,
    hpasses₂, hsplit, hexpects₂, ha₂⟩ := takeEvents_joined hmax hjoined₁
      (hhands₁.pending.trans hpending) (hcoming.same hhands₁.ahead) hnumbered ha₁ times overdue
  have hpasses := hhands₁.toPasses.trans hpasses₂
  rw [List.append_nil] at hpasses
  refine ⟨n₂, conn₂, taken, left, handed₁ ++ handed₂, now, later, s₂, got₂, ?_, hjoined₂, hpending₂,
    hwaiting, ?_, ?_, hpasses, hsplit, hexpects₂, ha₂⟩
  · rw [turn, htaken, hevents]
  · rw [hqueue₂, hqueue₁]
  · rw [hsent₂, hk₁]

end Node

end Multicast
