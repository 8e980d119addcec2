import Multicast.Proofs.Net.Steady
import Multicast.Proofs.Node.PeerTable

/-! A process that is reached over a connection that is up: what is queued for it is handed over one
message at a time, in order, but for the messages that do not fit. -/
namespace Multicast

open TransportEvent (payloads)

/-- Whether a message fits into a frame. -/
def fits (max : Nat) (message : Bytes) : Bool := message.length ≤ max

namespace Transport

/-- The transport has a connection that is up, and no other one to attend to. -/
structure Carries (c : ConnectionId) (max : Nat) (net : Transport) (conn : Connection) : Prop where
  connection : net.connection? c = some conn
  id : conn.id = c
  steady : conn.Steady max
  limit : net.config.maxFrameSize = max
  dirty : ∀ d ∈ net.dirty, d = c

variable {net : Transport} {c : ConnectionId} {max : Nat} {conn : Connection}

theorem setMessage_carries (h : net.Carries c max conn) (hasked : conn.readySignalled = true)
    (payload : Bytes) :
    (fits max payload = false ∧
      ∃ len, net.setMessage c payload = (.error (.frameTooLarge len max), net)) ∨
    (fits max payload = true ∧ ∃ net' conn', net.setMessage c payload = (.ok (), net') ∧
      net'.Carries c max conn' ∧ conn'.readySignalled = false ∧ conn'.ahead = conn.ahead ∧
      conn'.output = conn.output ++ Frame.encode payload ∧ net'.pending = net.pending) := by
  have hfree : conn.slotOccupied = false := h.steady.asked hasked
  rcases Connection.setMessage_steady h.steady hasked payload with
    ⟨hlarge, hset⟩ | ⟨hfits, conn', hset, hsteady, hid, hasked', hahead, houtput⟩
  · refine .inl ⟨by simpa [fits] using hlarge, payload.length, ?_⟩
    simp only [setMessage, h.connection, h.limit, hset, hfree, Bool.false_eq_true, if_false]
  · refine .inr ⟨by simpa [fits] using hfits, { net with
      connections := net.connections.put c conn', dirty := net.dirty ++ [c] }, conn', ?_,
      ⟨?_, hid.trans h.id, hsteady, h.limit, ?_⟩, hasked', hahead, houtput, rfl⟩
    · simp only [setMessage, h.connection, h.limit, hset]
    · exact Table.get?_put.trans (if_pos rfl)
    · intro d hd
      rcases List.mem_append.mp hd with hd | hd
      · exact h.dirty d hd
      · exact List.mem_singleton.mp hd

/-- A connection was attended to: some of the `frames` that were expected are reported, and `later`
are still to come. -/
structure Serves (c : ConnectionId) (max : Nat) (more : Bytes) (net net' : Transport)
    (conn conn' : Connection) (events : List TransportEvent) (frames later : List Bytes) :
    Prop where
  carries : net'.Carries c max conn'
  goes : conn.Goes max conn' events
  frames : frames = payloads events ++ later
  expects : conn'.Expects max more later
  pending : net'.pending = net.pending ++ events

variable {net' net'' : Transport} {conn' conn'' : Connection} {events events' : List TransportEvent}
  {frames later later' : List Bytes} {more : Bytes}

theorem Serves.trans (h : Serves c max more net net' conn conn' events frames later)
    (h' : Serves c max more net' net'' conn' conn'' events' later later') :
    Serves c max more net net'' conn conn'' (events ++ events') frames later' where
  carries := h'.carries
  goes := h.goes.trans h'.goes
  frames := by
    rw [h.frames, h'.frames, TransportEvent.payloads_append, List.append_assoc]
  expects := h'.expects
  pending := by rw [h'.pending, h.pending, List.append_assoc]

theorem serves_service (h : net.Carries c max conn) (hmax : max < UInt32.size)
    (hframes : conn.Expects max more frames) : ∃ conn' events later,
      Serves c max more net (net.service c) conn conn' events frames later := by
  obtain ⟨conn', events, later, hserviced, hgoes, hlater, hexpects⟩ :=
    Connection.goes_service h.steady hmax hframes
  have hservice : net.service c = { net with
      connections := net.connections.put c conn', pending := net.pending ++ events } := by
    simp only [service, h.connection, h.limit, hserviced]
  refine ⟨conn', events, later, ?_, hgoes, hlater, hexpects, by rw [hservice]⟩
  rw [hservice]
  exact ⟨Table.get?_put.trans (if_pos rfl), hgoes.id.trans h.id, hgoes.steady, h.limit, h.dirty⟩

theorem serves_services (ids : List ConnectionId) (hids : ∀ d ∈ ids, d = c)
    (h : net.Carries c max conn) (hmax : max < UInt32.size)
    (hframes : conn.Expects max more frames) : ∃ conn' events later,
      Serves c max more net (ids.foldl service net) conn conn' events frames later := by
  induction ids generalizing net conn frames with
  | nil =>
    refine ⟨conn, [], frames, h, ⟨h.steady, rfl, rfl, rfl, List.forall_mem_nil _, rfl⟩, rfl,
      hframes, ?_⟩
    exact (List.append_nil _).symm
  | cons d ids ih =>
    obtain ⟨rfl, hids⟩ := List.forall_mem_cons.mp hids
    obtain ⟨conn₁, events₁, later₁, hserves₁⟩ := serves_service h hmax hframes
    obtain ⟨conn₂, events₂, later₂, hserves₂⟩ := ih hids hserves₁.carries hserves₁.expects
    exact ⟨conn₂, events₁ ++ events₂, later₂, hserves₁.trans hserves₂⟩

theorem serves_serviceDirty (h : net.Carries c max conn) (hmax : max < UInt32.size)
    (hframes : conn.Expects max more frames) : ∃ conn' events later,
      Serves c max more net net.serviceDirty conn conn' events frames later := by
  have hclean : Carries c max { net with dirty := [] } conn :=
    ⟨h.connection, h.id, h.steady, h.limit, List.forall_mem_nil _⟩
  obtain ⟨conn', events, later, hserves⟩ := serves_services net.dirty h.dirty hclean hmax hframes
  exact ⟨conn', events, later, hserves.carries, hserves.goes, hserves.frames, hserves.expects,
    hserves.pending⟩

/-- A poll that is told of no other connection reports the next of the frames that are expected. -/
theorem serves_poll (h : net.Carries c max conn) (hmax : max < UInt32.size)
    (hframes : conn.Expects max more frames) (hpending : net.pending = []) (times : Nat) :
    ∃ net' conn' events later,
      net.poll (List.replicate times (.connection c)) = (events, { net' with pending := [] }) ∧
      Serves c max more net net' conn conn' events frames later := by
  obtain ⟨conn₁, events₁, later₁, h₁⟩ := serves_serviceDirty h hmax hframes
  obtain ⟨conn₂, events₂, later₂, h₂⟩ := serves_services (List.replicate times c)
    (fun d hd => List.eq_of_mem_replicate hd) h₁.carries hmax h₁.expects
  obtain ⟨conn₃, events₃, later₃, h₃⟩ := serves_serviceDirty h₂.carries hmax h₂.expects
  have hserves := (h₁.trans h₂).trans h₃
  have hheed : (List.replicate times (.connection c)).foldl heed net.serviceDirty =
      (List.replicate times c).foldl service net.serviceDirty := by
    rw [← List.map_replicate, List.foldl_map]
    rfl
  refine ⟨_, conn₃, _, later₃, ?_, hserves⟩
  have hreported := hserves.pending
  rw [hpending, List.nil_append] at hreported
  rw [poll, hheed, ← hreported]

end Transport

namespace PeerTable

/-- `q` is reached over connection `c`. The connection has asked for a message if the table knows
so or if the news is among the `asked` that it has not heeded. -/
structure Linked (q : Proc) (c : ConnectionId) (max asked : Nat) (t : PeerTable) (net : Transport)
    (conn : Connection) : Prop where
  link : ∃ l, (t.peer q).link = some l ∧ l.connection = c ∧
    l.ready.toNat + asked = conn.readySignalled.toNat
  owner : t.ownerOf? c = some q
  carries : net.Carries c max conn

/-- Messages are queued for `q`, and some of those in the queue are handed over. Only those that do
not fit are lost. -/
structure Passes (q : Proc) (max : Nat) (t t' : PeerTable) (conn conn' : Connection)
    (queued handed : List Bytes) : Prop where
  outbox : ((t.peer q).outbox ++ queued).filter (fits max) =
    handed ++ (t'.peer q).outbox.filter (fits max)
  output : conn'.output = conn.output ++ handed.flatMap Frame.encode
  others : ∀ p, p ≠ q → t'.peer p = t.peer p

/-- Messages are handed over on a connection that stays up. Nothing is read from it meanwhile. -/
structure Hands (q : Proc) (c : ConnectionId) (max asked : Nat) (t t' : PeerTable)
    (net net' : Transport) (conn conn' : Connection) (queued handed : List Bytes) : Prop extends
    Passes q max t t' conn conn' queued handed where
  linked : Linked q c max asked t' net' conn'
  ahead : conn'.ahead = conn.ahead
  pending : net'.pending = net.pending

variable {t t' t'' : PeerTable} {net net' net'' : Transport} {conn conn' conn'' : Connection}
  {p q : Proc} {c : ConnectionId} {max asked asked' : Nat}
  {queued queued' handed handed' : List Bytes} {l : PeerLink}

theorem Passes.trans (h : Passes q max t t' conn conn' queued handed)
    (h' : Passes q max t' t'' conn' conn'' queued' handed') :
    Passes q max t t'' conn conn'' (queued ++ queued') (handed ++ handed') where
  outbox := calc
    ((t.peer q).outbox ++ (queued ++ queued')).filter (fits max)
    _ = ((t.peer q).outbox ++ queued).filter (fits max) ++ queued'.filter (fits max) := by
      rw [← List.append_assoc, List.filter_append]
    _ = handed ++ ((t'.peer q).outbox ++ queued').filter (fits max) := by
      rw [h.outbox, List.append_assoc, List.filter_append]
    _ = handed ++ handed' ++ (t''.peer q).outbox.filter (fits max) := by
      rw [h'.outbox, List.append_assoc]
  output := by rw [h'.output, h.output, List.flatMap_append, List.append_assoc]
  others p hp := (h'.others p hp).trans (h.others p hp)

theorem Hands.trans (h : Hands q c max asked t t' net net' conn conn' queued handed)
    (h' : Hands q c max asked' t' t'' net' net'' conn' conn'' queued' handed') :
    Hands q c max asked' t t'' net net'' conn conn'' (queued ++ queued') (handed ++ handed') where
  toPasses := h.toPasses.trans h'.toPasses
  linked := h'.linked
  ahead := h'.ahead.trans h.ahead
  pending := h'.pending.trans h.pending

theorem Linked.hands_nothing (h : Linked q c max asked t net conn) :
    Hands q c max asked t t net net conn conn [] [] where
  outbox := by simp
  output := by simp
  others _ _ := rfl
  linked := h
  ahead := rfl
  pending := rfl

/-- What is handed over after messages were queued was queued or waited before. -/
theorem Hands.of_set {peer : Peer}
    (h : Hands q c max asked (t.set q peer) t' net net' conn conn' [] handed)
    (hqueued : peer.outbox = (t.peer q).outbox ++ queued) :
    Hands q c max asked t t' net net' conn conn' queued handed where
  outbox := by
    have houtbox := h.outbox
    rwa [peer_set_self, hqueued, List.append_nil] at houtbox
  output := h.output
  others p hp := by rw [h.others p hp, peer_set_of_ne hp]
  linked := h.linked
  ahead := h.ahead
  pending := h.pending

theorem Linked.reachable (h : Linked q c max asked t net conn) : (t.peer q).isReachable = true := by
  obtain ⟨l, hl, -⟩ := h.link
  simp [Peer.isReachable, hl]

/-- The messages at the front are dropped as long as they do not fit; the first that does is handed
over. -/
theorem handOver_carries (h : net.Carries c max conn) (hl : l.connection = c)
    (hready : l.ready = true) (hasked : conn.readySignalled = true) (outbox : List Bytes) :
    ∃ l' rest net' conn' handed, handOver l net outbox = (l', rest, net') ∧
      net'.Carries c max conn' ∧ l'.connection = c ∧ l'.ready = conn'.readySignalled ∧
      outbox.filter (fits max) = handed ++ rest.filter (fits max) ∧
      conn'.output = conn.output ++ handed.flatMap Frame.encode ∧ conn'.ahead = conn.ahead ∧
      net'.pending = net.pending := by
  induction outbox with
  | nil => exact ⟨l, [], net, conn, [], rfl, h, hl, hready.trans hasked.symm, rfl,
      (List.append_nil _).symm, rfl, rfl⟩
  | cons payload outbox ih =>
    rcases net.setMessage_carries h hasked payload with
      ⟨hlarge, len, hset⟩ | ⟨hfits, net', conn', hset, hcarries, hasked', hahead, houtput, hpending⟩
    · obtain ⟨l', rest, net', conn', handed, hover, hrest⟩ := ih
      refine ⟨l', rest, net', conn', handed, ?_, ?_⟩
      · rw [handOver, hl]
        simp only [Carrier.setMessage, hset, hover]
      · rwa [List.filter_cons_of_neg (by simp [hlarge])]
    · refine ⟨{ l with ready := false, inFlight := some payload }, outbox, net', conn', [payload],
        ?_, hcarries, hl, hasked'.symm, ?_, ?_, hahead, hpending⟩
      · rw [handOver, hl]
        simp only [Carrier.setMessage, hset]
      · rw [List.filter_cons_of_pos hfits]
        rfl
      · rw [houtput]
        simp

/-- If the connection has asked for a message, it gets the next one that fits. -/
theorem pump_linked (h : Linked q c max asked t net conn) : ∃ t' net' conn' handed,
    t.pump q net = (t', net') ∧ Hands q c max asked t t' net net' conn conn' [] handed := by
  obtain ⟨l, hl, hconn, hasked⟩ := h.link
  cases hready : l.ready with
  | false =>
    have hnone : (t.peer q).link.filter (·.ready) = none := by
      rw [hl, Option.filter_some_neg (by simp [hready])]
    refine ⟨t, net, conn, [], ?_, h.hands_nothing⟩
    simp only [pump, hnone]
  | true =>
    have hsome : (t.peer q).link.filter (·.ready) = some l := by
      rw [hl, Option.filter_some_pos hready]
    rw [hready] at hasked
    have hfree : conn.readySignalled = true := by
      cases hsignal : conn.readySignalled with
      | true => rfl
      | false => simp [hsignal] at hasked
    have hheeded : asked = 0 := by
      rw [hfree] at hasked
      simpa using hasked
    obtain ⟨l', rest, net', conn', handed, hover, hcarries, hconn', hready', houtbox, houtput,
      hahead, hpending⟩ := handOver_carries h.carries hconn hready hfree (t.peer q).outbox
    refine ⟨t.set q { t.peer q with link := some l', outbox := rest }, net', conn', handed, ?_,
      ⟨?_, houtput, ?_⟩, ⟨⟨l', ?_, hconn', ?_⟩, h.owner, hcarries⟩, hahead, hpending⟩
    · simp only [pump, hsome, hover]
    · rw [peer_set_self, List.append_nil]
      exact houtbox
    · exact fun p hp => peer_set_of_ne hp
    · rw [peer_set_self]
    · rw [hheeded, hready', Nat.add_zero]

/-- A table that says the same of every process but for what waits for `q`. -/
theorem Linked.set (h : Linked q c max asked t net conn) (outbox : List Bytes) :
    Linked q c max asked (t.set q { t.peer q with outbox }) net conn := by
  obtain ⟨l, hl, hrest⟩ := h.link
  exact ⟨⟨l, by rw [peer_set_self, hl], hrest⟩, h.owner, h.carries⟩

theorem send_linked (h : Linked q c max asked t net conn) (payload : Bytes) :
    ∃ t' net' conn' handed, t.send q payload net = (t', net') ∧
      Hands q c max asked t t' net net' conn conn' [payload] handed := by
  obtain ⟨t', net', conn', handed, hpump, hhands⟩ :=
    pump_linked (h.set ((t.peer q).outbox ++ [payload]))
  refine ⟨t', net', conn', handed, ?_, hhands.of_set rfl⟩
  simp only [send, h.reachable, if_true, hpump]

/-- The news that the connection asks for a message is heeded. -/
theorem onReady_linked (h : Linked q c max (asked + 1) t net conn) : ∃ t' net' conn' handed,
    t.onReady c net = (t', net') ∧ Hands q c max asked t t' net net' conn conn' [] handed := by
  obtain ⟨l, hl, hconn, hasked⟩ := h.link
  have hbound : conn.readySignalled.toNat ≤ 1 := Bool.toNat_le _
  have hwaiting : l.ready.toNat = 0 := by omega
  have hpeer : t.peers.get? q = some (t.peer q) := by
    cases hget : t.peers.get? q with
    | none => simp [PeerTable.peer, hget] at hl
    | some peer => rw [peer_of_get? hget]
  let t₁ := t.set q { t.peer q with link := some { l with ready := true, inFlight := none } }
  have hlinked : Linked q c max asked t₁ net conn := by
    refine ⟨⟨{ l with ready := true, inFlight := none }, by rw [peer_set_self], hconn, ?_⟩,
      h.owner, h.carries⟩
    change 1 + asked = conn.readySignalled.toNat
    omega
  obtain ⟨t', net', conn', handed, hpump, hhands⟩ := pump_linked hlinked
  refine ⟨t', net', conn', handed, ?_, hhands.of_set (List.append_nil _).symm⟩
  have hready : t.onReady c net = t₁.pump q net := by
    simp [onReady, h.owner, hpeer, hl, hconn, t₁]
  rw [hready, hpump]

/-- Nothing is done about a process that is or will be connected. -/
theorem ensure_reachable (h : (t.peer p).isReachable = true) :
    t.ensure p net = (t.set p (t.peer p), net) := by
  simp [ensure, h]

theorem peer_set_peer : (t.set p (t.peer p)).peer q = t.peer q := by
  by_cases h : q = p
  · rw [h, peer_set_self]
  · exact peer_set_of_ne h

theorem Linked.same (h : Linked q c max asked t net conn)
    (hpeer : ∀ p, t'.peer p = t.peer p) (howner : t'.ownerOf? c = t.ownerOf? c) :
    Linked q c max asked t' net conn := by
  refine ⟨?_, howner.trans h.owner, h.carries⟩
  rw [hpeer]
  exact h.link

end PeerTable

end Multicast
