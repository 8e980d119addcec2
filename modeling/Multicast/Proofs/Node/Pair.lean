import Mathlib.Data.List.Induction
import Mathlib.Data.List.TakeWhile
import Multicast.Proofs.Node.Turn

/-! Two nodes that send each other FIFO messages over one connection, which is never lost. A
message that is too large for a frame is dropped after it was numbered, and the receiver waits for
its number ever after: what it delivers ends where the first such message stood. -/
namespace Multicast

/-- The two ends of a connection: the processes, and its number at either. -/
structure Ends where
  here : Proc
  there : Proc
  near : ConnectionId
  far : ConnectionId

def Ends.swap (e : Ends) : Ends := ⟨e.there, e.here, e.far, e.near⟩

/-- A node, and the payloads that it was asked to send to the other and that it accepted. -/
structure Station where
  node : Node
  said : List Bytes := []

structure Pair where
  near : Station
  far : Station

namespace Node

/-- Lets the socket of a connection change. -/
def onSocket (n : Node) (c : ConnectionId) (f : Socket → Socket) : Node :=
  { n with transport := n.transport.update c (·.onSocket f) }

/-- Bytes that a connection has still to write or to send on. -/
def output (n : Node) (c : ConnectionId) : Bytes :=
  (n.transport.connection? c).elim [] Connection.output

/-- Bytes that have arrived for a connection and were not read. -/
def incoming (n : Node) (c : ConnectionId) : Bytes :=
  (n.transport.connection? c).elim [] Connection.incoming

/-- Bytes that a connection has written and that are not carried away. -/
def outgoing (n : Node) (c : ConnectionId) : Bytes :=
  (n.transport.connection? c).elim [] Connection.outgoing

end Node

namespace Pair

/-- What happens at one of the nodes. -/
inductive Move where
  /-- The application sends a message to the other node. It may be refused. -/
  | submit (payload : Bytes)
  /-- A turn of the loop, in which the connection is reported ready so many times. -/
  | turn (times : Nat) (overdue : Bool)
  /-- So many bytes are carried to the other node. -/
  | carry (count : Nat)
  /-- How many bytes can be written. -/
  | room (room : Option Nat)

def swap (p : Pair) : Pair := ⟨p.far, p.near⟩

/-- A move of the near node. -/
def move (e : Ends) (p : Pair) : Move → Pair
  | .submit payload =>
    match p.near.node.submit (Command.fifoTo e.there payload) with
    | .ok node => { p with near := ⟨node, p.near.said ++ [payload]⟩ }
    | .error _ => p
  | .turn times overdue =>
    { p with near := { p.near with
        node := p.near.node.turn (List.replicate times (.connection e.near)) overdue } }
  | .carry count =>
    { near := { p.near with node := p.near.node.onSocket e.near fun s =>
        { s with outgoing := s.outgoing.drop count } }
      far := { p.far with node := p.far.node.onSocket e.far fun s =>
        { s with incoming := s.incoming ++ (p.near.node.outgoing e.near).take count } } }
  | .room room =>
    { p with near := { p.near with node := p.near.node.onSocket e.near ({ · with room }) } }

/-- A move of the near node, or one of the far node. -/
def step (e : Ends) (p : Pair) : Move ⊕ Move → Pair
  | .inl m => p.move e m
  | .inr m => (p.swap.move e.swap m).swap

def run (e : Ends) (p : Pair) (moves : List (Move ⊕ Move)) : Pair := moves.foldl (step e) p

/-- Near and far, seen from the near node: they are in one view and connected, and the near node has
sent nothing that is still under way or waits to be. -/
structure Established (e : Ends) (max base : Nat) (near far : Station) : Prop where
  joined : ∃ conn, near.node.Joined e.there e.near max 0 conn
  idle : near.node.transport.pending = []
  quiet : near.node.queue.items = [] ∧ (near.node.peers.peer e.there).outbox = [] ∧
    near.node.output e.near = []
  unread : ∃ conn, far.node.transport.connection? e.far = some conn ∧ conn.ahead = []
  number : near.node.fifo.sent.get? e.there = some base
  expected : far.node.fifo.sources.get? e.here = some ⟨base, []⟩
  said : near.said = []

/-- Nothing that the near node sends is under way or waits to be. -/
structure Drained (e : Ends) (near far : Station) : Prop where
  queue : near.node.queue.items = []
  outbox : (near.node.peers.peer e.there).outbox = []
  output : near.node.output e.near = []
  incoming : far.node.incoming e.far = []

/-- The payloads of the near node that the far node has delivered. -/
def delivered (e : Ends) (far : Station) : List Bytes := NodeEvent.fifoFrom e.here far.node.events

/-- The stream from near to far. Of the payloads that were accepted, some wait to be numbered. Of
the packets that fit, the first were `heard`, the next are `underway` and the last are `queued`. -/
structure Flow (e : Ends) (max base : Nat) (earlier : List Bytes) (near far : Station)
    (conn conn' : Connection) (taken waiting : List Bytes) (heard underway queued : List FifoPacket)
    (s : FifoSource) (got : List Bytes) : Prop where
  said : near.said = taken ++ waiting
  queue : near.node.queue.items = waiting.map (Command.fifoTo e.there)
  number : near.node.fifo.sent.get? e.there = some (base + taken.length)
  packets : (numbered base taken).filter (·.isSendable max) = heard ++ underway ++ queued
  outbox : (near.node.peers.peer e.there).outbox.filter (fits max) =
    queued.map FifoPacket.message
  expects : conn'.Expects max conn.output (underway.map FifoPacket.message)
  awaits : far.node.Awaits e.here base near.said earlier heard s got

def Flows (e : Ends) (max base : Nat) (earlier : List Bytes) (near far : Station)
    (conn conn' : Connection) : Prop :=
  ∃ taken waiting heard underway queued s got,
    Flow e max base earlier near far conn conn' taken waiting heard underway queued s got

/-- Both nodes are up, and so are both streams. -/
structure Talks (e : Ends) (max : Nat) (base base' : Nat) (earlier earlier' : List Bytes) (p : Pair)
    (conn conn' : Connection) : Prop where
  near : p.near.node.Joined e.there e.near max 0 conn
  far : p.far.node.Joined e.here e.far max 0 conn'
  idle : p.near.node.transport.pending = [] ∧ p.far.node.transport.pending = []
  out : Flows e max base earlier p.near p.far conn conn'
  back : Flows e.swap max base' earlier' p.far p.near conn' conn

variable {e : Ends} {max base base' : Nat} {earlier earlier' : List Bytes} {p : Pair}
  {near far near' far' : Station} {conn conn' conn₁ conn₁' : Connection}

theorem Talks.swap (h : Talks e max base base' earlier earlier' p conn conn') :
    Talks e.swap max base' base earlier' earlier p.swap conn' conn where
  near := h.far
  far := h.near
  idle := ⟨h.idle.2, h.idle.1⟩
  out := h.back
  back := h.out

/-- Nothing about a stream depends on what else its ends do. -/
theorem Flows.same (h : Flows e max base earlier near far conn conn')
    (hsaid : near'.said = near.said) (hqueue : near'.node.queue = near.node.queue)
    (hnumber : near'.node.fifo.sent = near.node.fifo.sent)
    (hpeers : near'.node.peers = near.node.peers)
    (hsources : far'.node.fifo.sources = far.node.fifo.sources)
    (hevents : far'.node.events = far.node.events)
    (hbytes : conn₁'.ahead ++ conn₁.output = conn'.ahead ++ conn.output) :
    Flows e max base earlier near' far' conn₁ conn₁' := by
  obtain ⟨taken, waiting, heard, underway, queued, s, got, hflow⟩ := h
  refine ⟨taken, waiting, heard, underway, queued, s, got, ?_⟩
  refine ⟨hsaid.trans hflow.said, ?_, ?_, hflow.packets, ?_, ⟨hflow.expects.fit, ?_⟩, ?_⟩
  · rw [hqueue, hflow.queue]
  · rw [hnumber, hflow.number]
  · rw [hpeers, hflow.outbox]
  · rw [hbytes, hflow.expects.bytes]
  · obtain ⟨hsource, hfollows, hhas, hdelivered⟩ := hflow.awaits
    exact ⟨hsources ▸ hsource, hsaid ▸ hfollows, hhas, hevents ▸ hdelivered⟩

/-- What a socket is may change as long as it stays open in both directions. -/
theorem joined_onSocket {n : Node} {q : Proc} {c : ConnectionId}
    (h : n.Joined q c max 0 conn) {f : Socket → Socket}
    (hopen : ∀ s, (f s).shut = s.shut ∧ (f s).ended = s.ended) :
    (n.onSocket c f).Joined q c max 0 (conn.onSocket f) := by
  obtain ⟨s, hlink, hshut, hended⟩ := h.linked.carries.steady.link
  have hsocket : conn.onSocket f = { conn with link := .socket (f s) } := by
    simp only [Connection.onSocket, hlink]
  have hupdate : n.transport.update c (·.onSocket f) =
      { n.transport with connections := n.transport.connections.put c (conn.onSocket f) } := by
    simp only [Transport.update, h.linked.carries.connection]
  obtain ⟨hconn, hid, hsteady, hlimit, hdirty⟩ := h.linked.carries
  obtain ⟨l, hl, hc, hready⟩ := h.linked.link
  refine h.next ⟨⟨l, hl, hc, ?_⟩, h.linked.owner, ?_⟩ (fun _ _ => rfl) ⟨rfl, rfl, rfl⟩ ⟨rfl, rfl⟩
  · rw [hsocket]
    exact hready
  · change Transport.Carries c max (n.transport.update c (·.onSocket f)) (conn.onSocket f)
    rw [hupdate]
    refine ⟨Table.get?_put.trans (if_pos rfl), ?_, ?_, hlimit, hdirty⟩
    · rw [hsocket]
      exact hid
    · rw [hsocket]
      have hstill : ∃ s', Link.socket (f s) = .socket s' ∧ s'.shut = false ∧ s'.ended = false :=
        ⟨f s, rfl, (hopen s).1.trans hshut, (hopen s).2.trans hended⟩
      exact hsteady.update hstill hsteady.asked hsteady.read

theorem pending_onSocket {n : Node} {c : ConnectionId} {f : Socket → Socket} :
    (n.onSocket c f).transport.pending = n.transport.pending := by
  simp only [Node.onSocket, Transport.update]
  split <;> rfl

theorem talks_submit (h : Talks e max base base' earlier earlier' p conn conn') (payload : Bytes) :
    Talks e max base base' earlier earlier' (p.move e (.submit payload)) conn conn' := by
  simp only [move]
  cases hsubmit : p.near.node.submit (Command.fifoTo e.there payload) with
  | error _ => exact h
  | ok node =>
    obtain ⟨queue, hitems, hnode⟩ : ∃ queue : BoundedQueue Command,
        queue.items = p.near.node.queue.items ++ [Command.fifoTo e.there payload] ∧
        node = { p.near.node with queue } := by
      unfold Node.submit BoundedQueue.push? at hsubmit
      split at hsubmit
      · cases hsubmit
      · split at hsubmit
        · rename_i queue hqueue
          cases hsubmit
          split at hqueue
          · cases hqueue
            exact ⟨_, rfl, rfl⟩
          · cases hqueue
        · cases hsubmit
    subst hnode
    obtain ⟨taken, waiting, heard, underway, queued, s, got, hflow⟩ := h.out
    refine ⟨h.near.next h.near.linked (fun _ _ => rfl) ⟨rfl, rfl, rfl⟩ ⟨rfl, rfl⟩, h.far, h.idle,
      ⟨taken, waiting ++ [payload], heard, underway, queued, s, got, ?_, ?_, hflow.number,
        hflow.packets, hflow.outbox, hflow.expects, ?_⟩, h.back.same rfl rfl rfl rfl rfl rfl rfl⟩
    · change p.near.said ++ [payload] = _
      rw [hflow.said, List.append_assoc]
    · rw [hitems, hflow.queue, List.map_append]
      rfl
    · obtain ⟨hsource, hfollows, hhas, hdelivered⟩ := hflow.awaits
      exact ⟨hsource, hfollows.mono (List.prefix_append _ _), hhas, hdelivered⟩

/-- The packets that are under way are numbered like the payloads they carry. -/
theorem Flow.numbered_underway {taken waiting got : List Bytes}
    {heard underway queued : List FifoPacket} {s : FifoSource}
    (h : Flow e max base earlier near far conn conn' taken waiting heard underway queued s got)
    (hbound : base + near.said.length ≤ 2 ^ 64) : ∀ packet ∈ underway,
      packet ∈ numbered base near.said ∧ packet.sequence < 2 ^ 64 := by
  intro packet hpacket
  have hsent : packet ∈ (numbered base taken).filter (·.isSendable max) := by
    rw [h.packets]
    exact List.mem_append_left _ (List.mem_append_right _ hpacket)
  have hsaid : packet ∈ numbered base near.said := by
    rw [h.said, numbered_append]
    exact List.mem_append_left _ (List.mem_filter.mp hsent).1
  have hlt := List.snd_lt_add_of_mem_zipIdx (mem_numbered.mp hsaid)
  exact ⟨hsaid, by dsimp only at hlt; omega⟩

/-- What is handed over of the packets that are queued goes under way. -/
theorem Flow.handed {taken waiting got taken₁ left handed : List Bytes}
    {heard underway queued : List FifoPacket} {s : FifoSource}
    (h : Flow e max base earlier near far conn conn' taken waiting heard underway queued s got)
    (hsaid : near'.said = near.said) (hwaiting : waiting = taken₁ ++ left)
    (hqueue : near'.node.queue.items = left.map (Command.fifoTo e.there))
    (hnumber : near'.node.fifo.sent.get? e.there = some (base + taken.length + taken₁.length))
    (hpasses : near.node.peers.Passes e.there max near'.node.peers conn conn₁
      ((numbered (base + taken.length) taken₁).map FifoPacket.message) handed) :
    Flows e max base earlier near' far conn₁ conn' := by
  have houtbox := hpasses.outbox
  rw [List.filter_append, h.outbox, List.filter_map, ← List.map_append] at houtbox
  obtain ⟨moved, queued₁, hpackets, rfl, hqueued₁⟩ := List.map_eq_append_iff.mp houtbox
  have hmoved : ∀ f ∈ moved.map FifoPacket.message, f.length ≤ max := by
    intro f hf
    have hmem := hpasses.outbox ▸ List.mem_append_left
      ((near'.node.peers.peer e.there).outbox.filter (fits max)) hf
    simpa [fits] using (List.mem_filter.mp hmem).2
  refine ⟨taken ++ taken₁, left, heard, underway ++ moved, queued₁, s, got, ?_, hqueue, ?_, ?_,
    hqueued₁.symm, ⟨?_, ?_⟩, ?_⟩
  · rw [hsaid, h.said, hwaiting, List.append_assoc]
  · rw [hnumber, List.length_append, Nat.add_assoc]
  · rw [numbered_append, List.filter_append, h.packets, List.append_assoc, List.append_assoc,
      List.append_assoc, List.append_assoc, ← hpackets]
    rfl
  · intro f hf
    rw [List.map_append] at hf
    rcases List.mem_append.mp hf with hf | hf
    · exact h.expects.fit f hf
    · exact hmoved f hf
  · rw [hpasses.output, ← List.append_assoc, h.expects.bytes, List.map_append, List.flatMap_append]
  · rw [hsaid]
    exact h.awaits

theorem talks_turn (hmax : max < UInt32.size)
    (h : Talks e max base base' earlier earlier' p conn conn')
    (hbound : base' + p.far.said.length ≤ 2 ^ 64) (times : Nat) (overdue : Bool) :
    ∃ conn₁,
      Talks e max base base' earlier earlier' (p.move e (.turn times overdue)) conn₁ conn' := by
  obtain ⟨taken, waiting, heard, underway, queued, s, got, hout⟩ := h.out
  obtain ⟨taken', waiting', heard', underway', queued', s', got', hback⟩ := h.back
  obtain ⟨n, conn₁, taken₁, left, handed, now, later, s₁, got₁, hturn, hjoined, hpending, hwaiting,
    hqueue, hk, hpasses, rfl, hexpects, hawaits⟩ := Node.turn_joined hmax h.near h.idle.1 hout.queue
      hout.number hback.expects (hback.numbered_underway hbound) hback.awaits times overdue
  refine ⟨conn₁, ?_⟩
  simp only [move, hturn]
  refine ⟨hjoined, h.far, ⟨hpending, h.idle.2⟩, hout.handed rfl hwaiting hqueue hk hpasses,
    ⟨taken', waiting', heard' ++ now, later, queued', s₁, got₁, hback.said, hback.queue,
      hback.number, ?_, hback.outbox, hexpects, hawaits⟩⟩
  rw [hback.packets]
  simp

theorem talks_carry (h : Talks e max base base' earlier earlier' p conn conn') (count : Nat) :
    ∃ conn₁ conn₁',
      Talks e max base base' earlier earlier' (p.move e (.carry count)) conn₁ conn₁' := by
  have houtgoing : p.near.node.outgoing e.near = conn.outgoing := by
    rw [Node.outgoing, h.near.linked.carries.connection]
    rfl
  let sent := conn.onSocket fun s => { s with outgoing := s.outgoing.drop count }
  let reached := conn'.onSocket fun s =>
    { s with incoming := s.incoming ++ conn.outgoing.take count }
  have hsent : conn.output = conn.outgoing.take count ++ sent.output :=
    Connection.output_carried count
  have hreached : reached.ahead = conn'.ahead ++ conn.outgoing.take count :=
    Connection.ahead_carried h.far.linked.carries.steady.socket
  simp only [move, houtgoing]
  refine ⟨sent, reached, joined_onSocket h.near fun _ => ⟨rfl, rfl⟩,
    joined_onSocket h.far fun _ => ⟨rfl, rfl⟩,
    ⟨pending_onSocket.trans h.idle.1, pending_onSocket.trans h.idle.2⟩,
    h.out.same rfl rfl rfl rfl rfl rfl ?_, h.back.same rfl rfl rfl rfl rfl rfl ?_⟩
  · rw [hsent, hreached, List.append_assoc]
  · exact congrArg₂ (· ++ ·) (Connection.ahead_onSocket fun _ => rfl)
      (Connection.output_onSocket fun _ => rfl)

theorem talks_room (h : Talks e max base base' earlier earlier' p conn conn') (room : Option Nat) :
    ∃ conn₁, Talks e max base base' earlier earlier' (p.move e (.room room)) conn₁ conn' := by
  refine ⟨_, joined_onSocket h.near fun _ => ⟨rfl, rfl⟩, h.far,
    ⟨pending_onSocket.trans h.idle.1, h.idle.2⟩,
    h.out.same rfl rfl rfl rfl rfl rfl ?_, h.back.same rfl rfl rfl rfl rfl rfl ?_⟩
  · exact congrArg (conn'.ahead ++ ·) (Connection.output_onSocket fun _ => rfl)
  · exact congrArg (· ++ conn'.output) (Connection.ahead_onSocket fun _ => rfl)

/-- Whatever happens at the near node, both streams go on. -/
theorem talks_move (hmax : max < UInt32.size)
    (h : Talks e max base base' earlier earlier' p conn conn')
    (hbound : base' + p.far.said.length ≤ 2 ^ 64) (m : Move) :
    ∃ conn₁ conn₁', Talks e max base base' earlier earlier' (p.move e m) conn₁ conn₁' := by
  cases m with
  | submit payload => exact ⟨conn, conn', talks_submit h payload⟩
  | turn times overdue =>
    obtain ⟨conn₁, h⟩ := talks_turn hmax h hbound times overdue
    exact ⟨conn₁, conn', h⟩
  | carry count => exact talks_carry h count
  | room room =>
    obtain ⟨conn₁, h⟩ := talks_room h room
    exact ⟨conn₁, conn', h⟩

theorem said_move (m : Move) : p.near.said.length ≤ (p.move e m).near.said.length ∧
    (p.move e m).far.said = p.far.said := by
  cases m with
  | submit payload =>
    simp only [move]
    split
    · simp
    · exact ⟨Nat.le_refl _, rfl⟩
  | turn times overdue => exact ⟨Nat.le_refl _, rfl⟩
  | carry count => exact ⟨Nat.le_refl _, rfl⟩
  | room room => exact ⟨Nat.le_refl _, rfl⟩

theorem said_step (m : Move ⊕ Move) : p.near.said.length ≤ (p.step e m).near.said.length ∧
    p.far.said.length ≤ (p.step e m).far.said.length := by
  cases m with
  | inl m =>
    obtain ⟨hnear, hfar⟩ := said_move (e := e) (p := p) m
    exact ⟨hnear, Nat.le_of_eq (congrArg List.length hfar).symm⟩
  | inr m =>
    obtain ⟨hfar, hnear⟩ := said_move (e := e.swap) (p := p.swap) m
    exact ⟨Nat.le_of_eq (congrArg List.length hnear).symm, hfar⟩

/-- Fewer messages are numbered than there are numbers. -/
def Numberable (base base' : Nat) (p : Pair) : Prop :=
  base + p.near.said.length ≤ 2 ^ 64 ∧ base' + p.far.said.length ≤ 2 ^ 64

theorem talks_step (hmax : max < UInt32.size)
    (h : Talks e max base base' earlier earlier' p conn conn') (hbound : Numberable base base' p)
    (m : Move ⊕ Move) :
    ∃ conn₁ conn₁', Talks e max base base' earlier earlier' (p.step e m) conn₁ conn₁' := by
  cases m with
  | inl m => exact talks_move hmax h hbound.2 m
  | inr m =>
    obtain ⟨conn₁, conn₁', h⟩ := talks_move hmax h.swap hbound.1 m
    exact ⟨conn₁', conn₁, h.swap⟩

theorem talks_run (hmax : max < UInt32.size)
    (h : Talks e max base base' earlier earlier' p conn conn') (moves : List (Move ⊕ Move))
    (hbound : Numberable base base' (p.run e moves)) :
    ∃ conn₁ conn₁', Talks e max base base' earlier earlier' (p.run e moves) conn₁ conn₁' := by
  induction moves using List.reverseRecOn with
  | nil => exact ⟨conn, conn', h⟩
  | append_singleton moves m ih =>
    have hlast : p.run e (moves ++ [m]) = (p.run e moves).step e m := by
      simp [run, List.foldl_append]
    rw [hlast] at hbound ⊢
    obtain ⟨hnear, hfar⟩ := said_step (e := e) (p := p.run e moves) m
    have hbefore : Numberable base base' (p.run e moves) := by
      obtain ⟨hn, hf⟩ := hbound
      exact ⟨by omega, by omega⟩
    obtain ⟨conn₁, conn₁', htalks⟩ := ih hbefore
    exact talks_step hmax htalks hbefore m

/-- A stream of which nothing is under way. -/
theorem flows_established (h : Established e max base near far)
    (hnear : near.node.transport.connection? e.near = some conn)
    (hfar : far.node.transport.connection? e.far = some conn') :
    Flows e max base (delivered e far) near far conn conn' := by
  obtain ⟨-, -, ⟨hqueue, houtbox, houtput⟩, ⟨unread, hunread, hahead⟩, hnumber, hexpected,
    hsaid⟩ := h
  rw [hfar] at hunread
  obtain rfl := Option.some.inj hunread
  have hout : conn.output = [] := by
    rwa [Node.output, hnear] at houtput
  refine ⟨[], [], [], [], [], ⟨base, []⟩, [], hsaid, hqueue, hnumber, rfl, ?_,
    ⟨List.forall_mem_nil _, ?_⟩, hexpected, ?_, ?_, (List.append_nil _).symm⟩
  · rw [houtbox]
    rfl
  · rw [hahead, hout]
    rfl
  · rw [hsaid]
    exact FifoSource.Follows.start
  · intro m
    exact ⟨fun hhas => (FifoSource.not_has_start hhas).elim, fun ⟨_, hmem, _⟩ => by cases hmem⟩

theorem payload_numbered {payloads : List Bytes} :
    (numbered base payloads).map (·.payload) = payloads := by
  rw [numbered, List.map_map]
  exact List.zipIdx_map_fst _ _

theorem eq_of_sequence_eq {payloads : List Bytes} {packet packet' : FifoPacket}
    (h : packet ∈ numbered base payloads) (h' : packet' ∈ numbered base payloads)
    (hsequence : packet.sequence = packet'.sequence) : packet = packet' := by
  obtain ⟨-, hpayload⟩ := List.mk_mem_zipIdx_iff_le_and_getElem?_sub.mp (mem_numbered.mp h)
  obtain ⟨-, hpayload'⟩ := List.mk_mem_zipIdx_iff_le_and_getElem?_sub.mp (mem_numbered.mp h')
  rw [hsequence, hpayload'] at hpayload
  cases packet
  cases packet'
  simp_all

/-- What is delivered of a stream of which all that fits has come in ends before the first packet
that does not fit. -/
theorem got_of_heard {s : FifoSource} {payloads got : List Bytes} (hs : s.Follows base payloads got)
    (hhas : ∀ m, s.Has base m ↔ ∃ packet ∈ (numbered base payloads).filter (·.isSendable max),
      packet.sequence = m) :
    got = ((numbered base payloads).takeWhile (·.isSendable max)).map (·.payload) := by
  obtain ⟨rest, rfl⟩ := hs.delivered
  have hfirst : ∀ packet ∈ numbered base got, packet.isSendable max = true := by
    intro packet hpacket
    have hzip := mem_numbered.mp hpacket
    have hlow : base ≤ packet.sequence := (List.mk_mem_zipIdx_iff_le_and_getElem?_sub.mp hzip).1
    have hlt : packet.sequence < s.expected := by
      rw [hs.expected]
      exact List.snd_lt_add_of_mem_zipIdx hzip
    obtain ⟨packet', hmem, hsequence⟩ := (hhas packet.sequence).mp ⟨hlow, .inl hlt⟩
    obtain ⟨hnumbered, hfits⟩ := List.mem_filter.mp hmem
    have hpacket' : packet ∈ numbered base (got ++ rest) := by
      rw [numbered_append]
      exact List.mem_append_left _ hpacket
    rwa [eq_of_sequence_eq hpacket' hnumbered hsequence.symm]
  have hnext : (numbered (base + got.length) rest).takeWhile (·.isSendable max) = [] := by
    cases rest with
    | nil => rfl
    | cons payload rest =>
      -- The packet whose turn it is has not come in, so it does not fit.
      have hmem : (⟨base + got.length, payload⟩ : FifoPacket) ∈
          numbered base (got ++ payload :: rest) := by
        rw [numbered_append]
        exact List.mem_append_right _ List.mem_cons_self
      rw [numbered, List.zipIdx_cons, List.map_cons]
      refine List.takeWhile_cons_of_neg fun hfits => hs.not_has_expected ?_
      rw [hs.expected]
      exact (hhas _).mpr ⟨_, List.mem_filter.mpr ⟨hmem, hfits⟩, rfl⟩
  rw [numbered_append, List.takeWhile_append_of_pos hfirst, hnext, List.append_nil,
    payload_numbered]

/-- Once a stream has drained, all that fits has come in. -/
theorem Flow.drained {taken waiting got : List Bytes} {heard underway queued : List FifoPacket}
    {s : FifoSource} (hmax : max < UInt32.size) (hd : Drained e near far)
    (h : Flow e max base earlier near far conn conn' taken waiting heard underway queued s got)
    (hnear : near.node.transport.connection? e.near = some conn)
    (hfar : far.node.transport.connection? e.far = some conn') (hsteady : conn'.Steady max) :
    (numbered base near.said).filter (·.isSendable max) = heard := by
  obtain ⟨hqueue, houtbox, houtput, hincoming⟩ := hd
  rw [Node.output, hnear] at houtput
  rw [Node.incoming, hfar] at hincoming
  change conn.output = [] at houtput
  change conn'.incoming = [] at hincoming
  obtain rfl : waiting = [] := List.map_eq_nil_iff.mp (h.queue.symm.trans hqueue)
  obtain rfl : queued = [] := by
    have hnone := h.outbox
    rw [houtbox] at hnone
    exact List.map_eq_nil_iff.mp hnone.symm
  obtain rfl : underway = [] := by
    -- The buffer would begin with a complete frame.
    have hbytes := h.expects.bytes
    rw [houtput, List.append_nil, Connection.ahead, hincoming, List.append_nil] at hbytes
    cases underway with
    | nil => rfl
    | cons packet underway =>
      have hfits : packet.message.length ≤ max := h.expects.fit _ List.mem_cons_self
      have hfront := hsteady.read
      rw [hbytes, List.map_cons, List.flatMap_cons, Frame.front_encode hfits (by omega)] at hfront
      cases hfront
  rw [h.said, List.append_nil, h.packets, List.append_nil, List.append_nil]

theorem takeWhile_eq_filter_iff {α β : Type} {f : α → β} {keeps : α → Bool} {l : List α} :
    (l.takeWhile keeps).map f = (l.filter keeps).map f ↔
      ∀ x ∈ l.dropWhile keeps, keeps x = false := by
  have hsplit : l.filter keeps = l.takeWhile keeps ++ (l.dropWhile keeps).filter keeps := by
    conv => lhs; rw [← List.takeWhile_append_dropWhile (p := keeps) (l := l)]
    rw [List.filter_append, List.filter_eq_self.mpr fun x hx => List.mem_takeWhile_imp hx]
  rw [hsplit, List.map_append, List.self_eq_append_right, List.map_eq_nil_iff,
    List.filter_eq_nil_iff]
  simp

/-- Once all has drained, the far node has delivered the payloads that come before the first that
does not fit into a frame; those are all that fit if and only if none that fits comes after it. A
length has four bytes, as the settings see to, and a number has eight. -/
theorem delivered_until_oversized (e : Ends) (max base base' : Nat) (p : Pair)
    (moves : List (Move ⊕ Move)) (hmax : max < UInt32.size)
    (hout : Established e max base p.near p.far) (hback : Established e.swap max base' p.far p.near)
    (hbound : Numberable base base' (p.run e moves))
    (hdrained : Drained e (p.run e moves).near (p.run e moves).far) :
    let packets := numbered base (p.run e moves).near.said
    delivered e (p.run e moves).far = delivered e p.far ++
        (packets.takeWhile (·.isSendable max)).map (·.payload) ∧
      (delivered e (p.run e moves).far = delivered e p.far ++
          (packets.filter (·.isSendable max)).map (·.payload) ↔
        ∀ packet ∈ packets.dropWhile (·.isSendable max), packet.isSendable max = false) := by
  intro packets
  obtain ⟨conn, hnear⟩ := hout.joined
  obtain ⟨conn', hfar⟩ := hback.joined
  have hconn := hnear.linked.carries.connection
  have hconn' := hfar.linked.carries.connection
  obtain ⟨conn₁, conn₁', htalks⟩ := talks_run hmax ⟨hnear, hfar, ⟨hout.idle, hback.idle⟩,
    flows_established hout hconn hconn', flows_established hback hconn' hconn⟩ moves hbound
  obtain ⟨taken, waiting, heard, underway, queued, s, got, hflow⟩ := htalks.out
  have hheard : packets.filter (·.isSendable max) = heard :=
    hflow.drained hmax hdrained htalks.near.linked.carries.connection
      htalks.far.linked.carries.connection htalks.far.linked.carries.steady
  have hgot : got = (packets.takeWhile (·.isSendable max)).map (·.payload) := by
    refine got_of_heard hflow.awaits.follows fun m => ?_
    rw [hflow.awaits.has, ← hheard]
  have hall : delivered e (p.run e moves).far = delivered e p.far ++
      (packets.takeWhile (·.isSendable max)).map (·.payload) :=
    hflow.awaits.delivered.trans (congrArg (delivered e p.far ++ ·) hgot)
  refine ⟨hall, ?_⟩
  rw [hall, List.append_right_inj]
  exact takeWhile_eq_filter_iff

/-- A node of a view of two, connected to the other and to itself. Frames hold eight bytes. -/
def settled (here there : Proc) (key : ConnectionKey) : Node where
  here
  queue := { capacity := 8, capacity_pos := by decide }
  fifo := {
    here
    initialized := true
    members := [here, there]
    sent := [(here, 0), (there, 0)]
    sources := [(here, {}), (there, {})] }
  causal := { here, initialized := true, members := [here, there] }
  membership := { here, view := some ⟨0, [here, there]⟩ }
  peers := {
    here
    peers := [(here, { link := some ⟨3, none, true, none⟩ }),
      (there, { link := some ⟨2, some key, true, none⟩ })]
    owners := [(3, here), (2, there)] }
  transport := {
    here
    config := { maxFrameSize := 8 }
    network := .isolated 49152
    connections := [
      (3, { Connection.loopback 3 here with
        senderEnabled := true, receiverEnabled := true, readySignalled := true }),
      (2, { Connection.dialing 2 here there { dial := .done key } with
        phase := .connected, key := some key, senderEnabled := true, receiverEnabled := true
        readySignalled := true })]
    nextId := 4 }

theorem established_settled {a b : Proc} {key : ConnectionKey} (h : a ≠ b) :
    Established ⟨a, b, 2, 2⟩ 8 0 ⟨settled a b key, []⟩ ⟨settled b a key.reversed, []⟩ where
  joined := by
    have hpeer : (settled a b key).peers.peer b = { link := some ⟨2, some key, true, none⟩ } := by
      simp [settled, PeerTable.peer, Table.get?, h]
    refine ⟨_, ⟨⟨_, by rw [hpeer], rfl, rfl⟩, rfl, rfl, rfl, ?_, rfl, List.forall_mem_nil _⟩, rfl,
      rfl, ?_, rfl, ?_⟩
    · exact ⟨⟨_, rfl, rfl, rfl⟩, rfl, rfl, rfl, rfl, rfl, rfl, fun _ => rfl, rfl⟩
    · simp [settled]
    · intro v hv p hp
      obtain rfl : v = ⟨0, [a, b]⟩ := (Option.some.inj hv).symm
      rcases List.mem_pair.mp hp with rfl | rfl
      · simp [settled, PeerTable.peer, Table.get?, Peer.isReachable]
      · rw [hpeer]
        rfl
  idle := rfl
  quiet := ⟨rfl, by simp [settled, PeerTable.peer, Table.get?, h], rfl⟩
  unread := ⟨_, rfl, rfl⟩
  number := by simp [settled, Table.get?, h]
  expected := by simp [settled, Table.get?, Ne.symm h]
  said := rfl

def small : Pair :=
  let a : Proc := ⟨"a", 7000, 0⟩
  let b : Proc := ⟨"b", 7000, 0⟩
  let key : ConnectionKey := ⟨.v4 [10, 0, 0, 1] 50001, .v4 [10, 0, 0, 2] 7000⟩
  ⟨⟨settled a b key, []⟩, ⟨settled b a key.reversed, []⟩⟩

def smallEnds : Ends := ⟨⟨"a", 7000, 0⟩, ⟨"b", 7000, 0⟩, 2, 2⟩

theorem established_small : Established smallEnds 8 0 small.near small.far ∧
    Established smallEnds.swap 8 0 small.far small.near :=
  ⟨established_settled (by decide), established_settled (by decide)⟩

/-- Three messages are submitted, handed over one by one and carried across in two parts. -/
def threeMessages (first second third : Bytes) : List (Move ⊕ Move) :=
  [.inl (.submit first), .inl (.submit second), .inl (.submit third), .inl (.turn 0 true),
    .inl (.turn 1 false), .inl (.carry 7), .inr (.turn 1 false), .inl (.turn 1 false),
    .inl (.turn 1 false), .inl (.carry 50), .inr (.turn 1 true)]

/-- The last of three messages is too large. -/
theorem delivered_until_last :
    let q := small.run smallEnds (threeMessages [1, 2] [3] [4, 5, 6, 7, 8, 9])
    Numberable 0 0 q ∧ Drained smallEnds q.near q.far ∧
      delivered smallEnds q.far = [[1, 2], [3]] := by
  intro q
  have hbound : Numberable 0 0 q := ⟨by decide +kernel, by decide +kernel⟩
  have hdrained : Drained smallEnds q.near q.far :=
    ⟨by decide +kernel, by decide +kernel, by decide +kernel, by decide +kernel⟩
  have hall := (delivered_until_oversized smallEnds 8 0 0 small
    (threeMessages [1, 2] [3] [4, 5, 6, 7, 8, 9]) (by decide) established_small.1
    established_small.2 hbound hdrained).1
  have hwhole : delivered smallEnds small.far ++
      ((numbered 0 q.near.said).takeWhile (·.isSendable 8)).map (·.payload) = [[1, 2], [3]] := by
    decide +kernel
  exact ⟨hbound, hdrained, hall.trans hwhole⟩

/-- The second of three messages is too large: the third fits and is not delivered. -/
theorem oversized_stops_stream : ¬ ∀ (e : Ends) (max base base' : Nat) (p : Pair)
    (moves : List (Move ⊕ Move)), max < UInt32.size → Established e max base p.near p.far →
    Established e.swap max base' p.far p.near → Numberable base base' (p.run e moves) →
    Drained e (p.run e moves).near (p.run e moves).far →
    delivered e (p.run e moves).far = delivered e p.far ++
      ((numbered base (p.run e moves).near.said).filter (·.isSendable max)).map (·.payload) := by
  intro hall
  have hthird := hall smallEnds 8 0 0 small (threeMessages [1, 2] [4, 5, 6, 7, 8, 9] [3])
    (by decide) established_small.1 established_small.2 ⟨by decide +kernel, by decide +kernel⟩
    ⟨by decide +kernel, by decide +kernel, by decide +kernel, by decide +kernel⟩
  revert hthird
  decide +kernel

end Pair

end Multicast
