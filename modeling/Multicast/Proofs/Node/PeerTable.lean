import Multicast.Node.PeerTable
import Multicast.Proofs.Table

/-! What a peer table says of a process after it is changed, and what of a connection a transport
still has after a command. What is recorded beside a transport does not change what a table does. -/
namespace Multicast

namespace Transport
variable {t : Transport} {c d : ConnectionId} {conn started : Connection}
  {events : List TransportEvent}

theorem close_of_none (h : t.connection? c = none) : Carrier.close t c = t := by
  simp only [Carrier.close, close, h]
  rfl

/-- A connection that is closed is dropped, or told to close. -/
theorem close_cases (h : t.connection? c = some conn) :
    Carrier.close t c = { t with connections := t.connections.erase c } ∨
    Carrier.close t c = { t with
      connections := t.connections.put c conn.beginClose
      dirty := t.dirty ++ [c] } := by
  simp only [Carrier.close, close, h]
  split
  · left
    simp only [disconnect, h]
    rfl
  · exact .inr rfl

/-- To close a connection does not touch the others. -/
theorem connection?_close_of_ne (h : c ≠ d) :
    (Carrier.close t d).connection? c = t.connection? c := by
  cases hd : t.connection? d with
  | none => rw [close_of_none hd]
  | some conn =>
    rcases close_cases hd with hclosed | hclosed
    · rw [hclosed]
      simp [connection?, Table.get?_erase, h]
    · rw [hclosed]
      simp [connection?, Table.get?_put, h]

/-- What the start of a connection has to report is pending. -/
theorem start_eq (h : t.connection? c = some conn)
    (hstart : (conn.setReceiver true).setSender true = (started, events)) :
    Carrier.start t c = (true, { t with
      connections := (t.connections.put c (conn.setReceiver true)).put c started
      dirty := t.dirty ++ [c]
      pending := t.pending ++ events }) := by
  have hagain : (t.connections.put c (conn.setReceiver true)).get? c =
      some (conn.setReceiver true) := by
    rw [Table.get?_put, if_pos rfl]
  have hreceiver : t.setReceiver c true = .ok { t with
      connections := t.connections.put c (conn.setReceiver true)
      dirty := t.dirty ++ [c] } := by
    simp only [setReceiver, h, if_true]
  simp only [Carrier.start, hreceiver, setSender, connection?, hagain, hstart]

/-- A connection that the transport has can be started. -/
theorem start_of_connection (h : (t.connection? c).isSome = true) :
    (Carrier.start t c).1 = true := by
  obtain ⟨conn, hconn⟩ := Option.isSome_iff_exists.mp h
  rw [start_eq hconn rfl]

end Transport

namespace Peer

/-- A peer, one of whose connections has completed its handshake. -/
def reached (peer : Peer) (c : ConnectionId) : Peer :=
  if peer.dialing = some c then { peer with dialing := none } else peer

variable {peer : Peer} {c d : ConnectionId}

@[simp] theorem link_reached : (peer.reached c).link = peer.link := by
  unfold reached
  split <;> rfl

theorem dialing_reached_ne : (peer.reached c).dialing ≠ some c := by
  unfold reached
  split
  · simp
  · assumption

theorem dialing_of_reached (h : (peer.reached c).dialing = some d) : peer.dialing = some d := by
  unfold reached at h
  split at h
  · cases h
  · exact h

end Peer

namespace PeerTable
variable {t : PeerTable} {p q : Proc} {peer : Peer} {c d : ConnectionId}

@[simp] theorem peer_set_self : (t.set p peer).peer p = peer := by
  simp [PeerTable.peer, set, Table.get?_put]

theorem peer_set_of_ne (h : q ≠ p) : (t.set p peer).peer q = t.peer q := by
  simp [PeerTable.peer, set, Table.get?_put, h]

theorem ownerOf?_put : ({ t with owners := t.owners.put d p } : PeerTable).ownerOf? c =
    if c = d then some p else t.ownerOf? c := Table.get?_put

theorem peer_of_get? (h : t.peers.get? p = some peer) : t.peer p = peer := by
  rw [PeerTable.peer, h, Option.getD_some]

section

variable {τ : Type} [Carrier τ] {net : τ} {key : Option ConnectionKey} {remote : Option Proc}
  {reason : String}

/-- A table without a connection to `p` adopts the first. With one, the tie-break decides. -/
theorem onEstablished_eq : t.onEstablished c p key net =
    let t' := t.set p ((t.peer p).reached c)
    match (t.peer p).link with
    | none => t'.adopt c p key net
    | some link =>
      match tieBreak link.key key with
      | .keepFirst | .tied =>
        ([], { t' with owners := t'.owners.put c p }, Carrier.close net c)
      | .keepSecond => t'.adopt c p key (Carrier.close net link.connection) := by
  rw [← Peer.link_reached (c := c)]
  rfl

theorem events_onEstablished : (t.onEstablished c p key net).1 = [] ∨
    (t.onEstablished c p key net).1 = [.peerUp p] := by
  have hadopt (t : PeerTable) (net : τ) : (t.adopt c p key net).1 = [] ∨
      (t.adopt c p key net).1 = [.peerUp p] := by
    simp only [adopt]
    split
    · exact .inr rfl
    · exact .inl rfl
  rw [onEstablished_eq]
  dsimp only
  split
  · exact hadopt _ _
  · split
    · exact .inl rfl
    · exact .inl rfl
    · exact hadopt _ _

theorem events_onLost : (t.onLost c remote reason).1 = [] ∨
    ∃ p, (t.onLost c remote reason).1 = [.peerDown p reason] := by
  unfold onLost
  split
  · exact .inl rfl
  · dsimp only
    split
    · exact .inl rfl
    · split
      · exact .inl rfl
      · split
        · exact .inl rfl
        · split
          · exact .inr ⟨_, rfl⟩
          · exact .inl rfl

end

end PeerTable

/-- One carrier does what another does, and keeps something beside it. -/
structure Carrier.Over {σ τ : Type} [Carrier σ] [Carrier τ] (net : σ → τ) : Prop where
  connect : ∀ s p, Carrier.connect (net s) p =
    ((Carrier.connect s p).1, net (Carrier.connect s p).2)
  disconnect : ∀ s c, Carrier.disconnect (net s) c = net (Carrier.disconnect s c)
  close : ∀ s c, Carrier.close (net s) c = net (Carrier.close s c)
  setMessage : ∀ s c payload, Carrier.setMessage (net s) c payload =
    ((Carrier.setMessage s c payload).1, net (Carrier.setMessage s c payload).2)
  start : ∀ s c, Carrier.start (net s) c = ((Carrier.start s c).1, net (Carrier.start s c).2)

namespace PeerTable

section Over

variable {σ τ : Type} [Carrier σ] [Carrier τ] {net : σ → τ} {s : σ} {t : PeerTable} {p : Proc}
  {c : ConnectionId} {key : Option ConnectionKey} {link : PeerLink} {payload : Bytes}
  {outbox : List Bytes} (h : Carrier.Over net)
include h

theorem handOver_over : handOver link (net s) outbox =
    ((handOver link s outbox).1, (handOver link s outbox).2.1,
      net (handOver link s outbox).2.2) := by
  induction outbox generalizing s with
  | nil => rfl
  | cons payload outbox ih =>
    rw [handOver, handOver, h.setMessage]
    generalize Carrier.setMessage s link.connection payload = x
    obtain ⟨result, s'⟩ := x
    match result with
    | .ok () => rfl
    | .error (.frameTooLarge _ _) => exact ih
    | .error .io | .error .bindFailed | .error (.resolve _) | .error (.unresolvable _)
    | .error (.handshake _) | .error (.handshakeMismatch _ _) | .error .handshakeIncomplete
    | .error (.truncatedFrame _) | .error (.notConnected _) | .error (.unknownConnection _)
    | .error (.slotOccupied _) => rfl

theorem pump_over : t.pump p (net s) = ((t.pump p s).1, net (t.pump p s).2) := by
  unfold pump
  dsimp only
  split
  · rfl
  · rw [handOver_over h]

theorem dial_over : t.dial p (net s) = ((t.dial p s).1, net (t.dial p s).2) := by
  simp only [dial, h.connect]

theorem ensure_over : t.ensure p (net s) = ((t.ensure p s).1, net (t.ensure p s).2) := by
  unfold ensure
  dsimp only
  split
  · rw [dial_over h]
  · rfl

theorem send_over :
    t.send p payload (net s) = ((t.send p payload s).1, net (t.send p payload s).2) := by
  unfold send
  dsimp only
  split
  · exact pump_over h
  · rw [dial_over h]
    exact pump_over h

theorem forget_over : t.forget p (net s) = ((t.forget p s).1, net (t.forget p s).2) := by
  have hids (ids : List ConnectionId) : ids.foldl Carrier.disconnect (net s) =
      net (ids.foldl Carrier.disconnect s) := List.foldl_hom net fun s c => h.disconnect s c
  unfold forget
  split
  · rfl
  · dsimp only
    rw [hids]

theorem adopt_over : t.adopt c p key (net s) =
    ((t.adopt c p key s).1, (t.adopt c p key s).2.1, net (t.adopt c p key s).2.2) := by
  simp only [adopt, h.start]

theorem onEstablished_over : t.onEstablished c p key (net s) =
    ((t.onEstablished c p key s).1, (t.onEstablished c p key s).2.1,
      net (t.onEstablished c p key s).2.2) := by
  unfold onEstablished
  dsimp only
  split
  · exact adopt_over h
  · split
    · rw [h.close]
    · rw [h.close]
    · rw [h.close]
      exact adopt_over h

theorem onReady_over : t.onReady c (net s) = ((t.onReady c s).1, net (t.onReady c s).2) := by
  unfold onReady
  split
  · rfl
  · split
    · rfl
    · exact pump_over h

end Over

end PeerTable

end Multicast
