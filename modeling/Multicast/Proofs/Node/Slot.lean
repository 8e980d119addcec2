import Multicast.Proofs.Node.Orderly

/-! A peer table hands over a message only where one was asked for, so no message is ever set over
another, in whatever order the events of the transport are heeded. -/
namespace Multicast

open TransportEvent (greetings asksOn)

variable {inbox heeded : List TransportEvent} {t t' : PeerTable} {r : Recorded}
  {c d : ConnectionId} {p q : Proc} {peer : Peer} {conn : Connection} {link l : PeerLink}
  {key : Option ConnectionKey} {payload : Bytes} {event : TransportEvent}

/-- A connection, if the transport still has it, waits for a message, and the question is not on its
way any more. -/
def Armed (inbox : List TransportEvent) (r : Recorded) (c : ConnectionId) : Prop :=
  ∀ conn, r.net.connection? c = some conn →
    conn.readySignalled = true ∧ asksOn c (inbox ++ r.net.pending) = 0

/-- A connection, if the transport still has it, has completed its handshake, and nothing was done
with it so far. -/
structure Greeted (t : PeerTable) (inbox : List TransportEvent) (r : Recorded) (c : ConnectionId) :
    Prop where
  known : c < r.net.nextId
  up : ∀ conn, r.net.connection? c = some conn →
    conn.phase = .connected ∧ greetings c (inbox ++ r.net.pending) = 0
  free : ∀ conn, r.net.connection? c = some conn → ∀ p l, t.Links p l → l.connection ≠ c

/-! ### The links of a table -/

theorem PeerTable.links_set :
    (t.set p peer).Links q l ↔ if q = p then peer.link = some l else t.Links q l := by
  unfold Links
  split
  · rename_i hq
    rw [hq, peer_set_self]
  · rename_i hq
    rw [peer_set_of_ne hq]

theorem PeerTable.links_of_set (hlink : peer.link = (t.peer p).link)
    (h : (t.set p peer).Links q l) : t.Links q l := by
  rw [links_set] at h
  split at h
  · rename_i hq
    rw [hq, Links, ← hlink]
    exact h
  · exact h

/-- A link that is kept may become ready if its connection is armed. -/
theorem Orderly.relink (h : Orderly inbox heeded t r)
    (hlinks : ∀ p l', t'.Links p l' → ∃ l, t.Links p l ∧ l.connection = l'.connection ∧
      (l'.ready = true → l.ready = true ∨ Armed inbox r l.connection)) :
    Orderly inbox heeded t' r := by
  have hbound : ∀ p l', t'.Links p l' → l'.connection < r.net.nextId := by
    intro p l' hl'
    obtain ⟨l, hl, hsame, -⟩ := hlinks p l' hl'
    exact hsame ▸ h.links p l hl
  refine { h with tame := ?_, links := hbound }
  intro c conn hconn
  have htame := h.tame c conn hconn
  refine { htame with unheeded := ?_, ready := ?_, owner := ?_ }
  · intro hnew
    obtain ⟨hsender, hnone, hfree⟩ := htame.unheeded hnew
    refine ⟨hsender, hnone, fun p l' hl' => ?_⟩
    obtain ⟨l, hl, hsame, -⟩ := hlinks p l' hl'
    exact hsame ▸ hfree p l hl
  · intro p l' hl' hc hready
    obtain ⟨l, hl, hsame, hwas⟩ := hlinks p l' hl'
    have hcl : l.connection = c := hsame.trans hc
    rcases hwas hready with hwas | harmed
    · exact htame.ready p l hl hcl hwas
    · rw [hcl] at harmed
      exact harmed conn hconn
  · intro p q l' m' hl' hm' hcl hcm
    obtain ⟨l, hl, hsame, -⟩ := hlinks p l' hl'
    obtain ⟨m, hm, hsame', -⟩ := hlinks q m' hm'
    exact htame.owner p q l m hl hm (hsame.trans hcl) (hsame'.trans hcm)

/-- Links may be taken away. -/
theorem Orderly.unlink (h : Orderly inbox heeded t r)
    (hlinks : ∀ p l, t'.Links p l → t.Links p l) : Orderly inbox heeded t' r :=
  h.relink fun p l hl => ⟨l, hlinks p l hl, rfl, .inl⟩

/-- What a table notes of a process beside the link does not matter. -/
theorem Orderly.set (h : Orderly inbox heeded t r) (hlink : peer.link = (t.peer p).link) :
    Orderly inbox heeded (t.set p peer) r :=
  h.unlink fun _ _ => PeerTable.links_of_set hlink

/-- A process is reached over a connection that has just completed its handshake. -/
theorem Orderly.linked (h : Orderly inbox heeded t r) (hc : Greeted t inbox r c)
    (hlinks : ∀ q l, t'.Links q l → t.Links q l ∨ q = p ∧ l.connection = c ∧ l.ready = false) :
    Orderly inbox heeded t' r := by
  have hbound : ∀ q l, t'.Links q l → l.connection < r.net.nextId := by
    intro q l hl
    rcases hlinks q l hl with hl | ⟨-, hlc, -⟩
    · exact h.links q l hl
    · exact hlc ▸ hc.known
  refine { h with tame := ?_, links := hbound }
  intro d conn hconn
  have htame := h.tame d conn hconn
  refine { htame with unheeded := ?_, ready := ?_, owner := ?_ }
  · intro hnew
    obtain ⟨hsender, hnone, hfree⟩ := htame.unheeded hnew
    refine ⟨hsender, hnone, fun q l hl hd => ?_⟩
    rcases hlinks q l hl with hl | ⟨-, hlc, -⟩
    · exact hfree q l hl hd
    · obtain rfl : c = d := hlc.symm.trans hd
      obtain ⟨hup, hheeded⟩ := hc.up conn hconn
      have hone : conn.up = 1 := Connection.up_eq_one.mpr hup
      omega
  · intro q l hl hd hready
    rcases hlinks q l hl with hl | ⟨-, -, hidle⟩
    · exact htame.ready q l hl hd hready
    · rw [hidle] at hready
      cases hready
  · intro q q' l l' hl hl' hd hd'
    rcases hlinks q l hl with hl | ⟨hq, hlc, -⟩
    · rcases hlinks q' l' hl' with hl' | ⟨-, hlc', -⟩
      · exact htame.owner q q' l l' hl hl' hd hd'
      · obtain rfl : c = d := hlc'.symm.trans hd'
        exact (hc.free conn hconn q l hl hd).elim
    · obtain rfl : c = d := hlc.symm.trans hd
      rcases hlinks q' l' hl' with hl' | ⟨hq', -, -⟩
      · exact (hc.free conn hconn q' l' hl' hd').elim
      · rw [hq, hq']

/-! ### A message is handed over -/

theorem Connection.setMessage_ok {max : Nat} {conn' : Connection}
    (h : conn.setMessage payload max = .ok conn') :
    conn'.id = conn.id ∧ conn'.phase = conn.phase ∧ conn'.senderEnabled = conn.senderEnabled ∧
      conn'.closing = conn.closing ∧ conn'.readySignalled = false := by
  unfold setMessage at h
  split at h
  · cases h
  · split at h
    · cases h
    · split at h
      · cases h
      · dsimp only at h
        split at h <;> cases h <;> exact ⟨rfl, rfl, rfl, rfl, rfl⟩

/-- A connection that is given the message it waits for. -/
theorem Tame.given {queue : List TransportEvent} {journal : List Mark} {max : Nat}
    {conn' : Connection} (h : Tame t queue journal c conn) (hl : t.Links p l)
    (hc : l.connection = c) (hidle : l.ready = false) (hasks : conn.readySignalled = true)
    (hnone : asksOn c queue = 0) (hset : conn.setMessage payload max = .ok conn') :
    Tame t queue (journal ++ [.took c]) c conn' := by
  obtain ⟨hid, hphase, hsender, hclosing, hsignal⟩ := Connection.setMessage_ok hset
  have hup : conn'.up = conn.up := by rw [Connection.up, Connection.up, hphase]
  have hasking : Mark.asking c journal = true := by
    rw [← h.id, h.follows.asking, hasks]
  have hconn : conn'.id = c := hid.trans h.id
  refine ⟨hconn, ⟨.took h.follows.proper hasking, ?_, ?_⟩, ?_, ?_, ?_, ?_, ?_, h.owner⟩
  · rw [Mark.asking_append_singleton, hconn, hsignal]
    simp [Mark.next]
  · intro hs
    rcases List.mem_append.mp hs with hs | hs
    · rw [hclosing]
      exact h.follows.shut (hid ▸ hs)
    · simp at hs
  · intro hs
    rw [hsignal] at hs
    cases hs
  · rw [hup]
    exact h.greets
  · rw [hup]
    exact fun hnew => ((h.unheeded hnew).2.2 p l hl hc).elim
  · rw [hnone]
    exact Nat.zero_le _
  · intro q m hm hcm hready
    obtain rfl : q = p := h.owner q p m l hm hl hcm hc
    obtain rfl : m = l := Option.some.inj (hm.symm.trans hl)
    rw [hidle] at hready
    cases hready

theorem Orderly.given (h : Orderly inbox heeded t r) (hl : t.Links p l) (hidle : l.ready = false)
    (harmed : Armed inbox r l.connection)
    (hok : (Carrier.setMessage r l.connection payload).1 = .ok ()) :
    Orderly inbox heeded t (Carrier.setMessage r l.connection payload).2 := by
  change (r.net.setMessage l.connection payload).1 = .ok () at hok
  change Orderly inbox heeded t ⟨(r.net.setMessage l.connection payload).2, r.journal ++
    if (r.net.setMessage l.connection payload).1.isOk then [.took l.connection] else []⟩
  rw [hok]
  cases hconn : r.net.connection? l.connection with
  | none => simp [Transport.setMessage, hconn] at hok
  | some conn =>
    obtain ⟨hasks, hnone⟩ := harmed conn hconn
    cases hset : conn.setMessage payload r.net.config.maxFrameSize with
    | error e => simp [Transport.setMessage, hconn, hset] at hok
    | ok conn' =>
      have hgiven := (h.tame _ conn hconn).given hl rfl hidle hasks hnone hset
      have hmarks : ∀ m ∈ [Mark.took l.connection], m.connection = l.connection := by
        simp [Mark.connection]
      simp only [Transport.setMessage, hconn, hset]
      rw [← List.append_nil (inbox ++ r.net.pending)] at hgiven
      exact h.put ⟨Nat.le_refl _, h.known _ conn hconn, (List.append_nil _).symm, rfl, rfl,
        List.forall_mem_nil _, hmarks, rfl⟩ (fun _ => Table.get?_put) hgiven

/-- A message that is refused changes nothing, since the slot is free. -/
theorem Orderly.refused (h : Orderly inbox heeded t r) (hl : t.Links p l) (hready : l.ready = true)
    {e : NetError} (he : (Carrier.setMessage r l.connection payload).1 = .error e) :
    (Carrier.setMessage r l.connection payload).2 = r := by
  change (r.net.setMessage l.connection payload).1 = .error e at he
  change Recorded.mk (r.net.setMessage l.connection payload).2 (r.journal ++
    if (r.net.setMessage l.connection payload).1.isOk then [.took l.connection] else []) = r
  rw [he]
  cases hconn : r.net.connection? l.connection with
  | none =>
    simp only [Transport.setMessage, hconn]
    simp [Except.isOk, Except.toBool]
  | some conn =>
    have htame := h.tame _ conn hconn
    have hfree : conn.slotOccupied = false := htame.slot (htame.ready p l hl rfl hready).1
    cases hset : conn.setMessage payload r.net.config.maxFrameSize with
    | error e =>
      simp only [Transport.setMessage, hconn, hset, hfree]
      simp [Except.isOk, Except.toBool]
    | ok conn' => simp [Transport.setMessage, hconn, hset] at he

/-- A link that was ready is not, whatever was done about it. -/
theorem Orderly.idle (h : Orderly inbox heeded t r) (hl : t.Links p link) {inFlight : Option Bytes}
    (hpeer : peer.link = some { link with ready := false, inFlight }) :
    Orderly inbox heeded (t.set p peer) r := by
  refine h.relink fun q l' hl' => ?_
  rw [PeerTable.links_set] at hl'
  split at hl'
  · rename_i hq
    cases hpeer.symm.trans hl'
    exact ⟨link, hq ▸ hl, rfl, nofun⟩
  · exact ⟨l', hl', rfl, .inl⟩

theorem Orderly.handOver (h : Orderly inbox heeded t r) (hl : t.Links p link)
    (hready : link.ready = true) (outbox : List Bytes)
    (hpeer : peer.link = some (PeerTable.handOver link r outbox).1) :
    Orderly inbox heeded (t.set p peer) (PeerTable.handOver link r outbox).2.2 := by
  induction outbox with
  | nil => exact h.set (hpeer.trans hl.symm)
  | cons payload outbox ih =>
    have harmed : Armed inbox r link.connection :=
      fun conn hconn => (h.tame _ conn hconn).ready p link hl rfl hready
    rw [PeerTable.handOver] at hpeer ⊢
    cases hset : Carrier.setMessage r link.connection payload with
    | mk result r' =>
      rw [hset] at hpeer
      cases result with
      | ok =>
        have hlinked : (t.set p peer).Links p
            { link with ready := false, inFlight := some payload } := by
          rw [PeerTable.links_set, if_pos rfl]
          exact hpeer
        have hgiven := (h.idle hl hpeer).given hlinked rfl harmed (congrArg Prod.fst hset)
        rwa [hset] at hgiven
      | error e =>
        obtain rfl : r = r' :=
          (h.refused hl hready (congrArg Prod.fst hset)).symm.trans (congrArg Prod.snd hset)
        cases e with
        | frameTooLarge len max => exact ih hpeer
        | _ => exact h.idle hl hpeer

/-! ### What the table does -/

theorem Orderly.pump (h : Orderly inbox heeded t r) (p : Proc) :
    Orderly inbox heeded (t.pump p r).1 (t.pump p r).2 := by
  unfold PeerTable.pump
  dsimp only
  split
  · exact h
  · rename_i link hlink
    obtain ⟨hl, hready⟩ := Option.filter_eq_some_iff.mp hlink
    exact h.handOver hl hready _ rfl

theorem Orderly.dial (h : Orderly inbox heeded t r) (p : Proc) :
    Orderly inbox heeded (t.dial p r).1 (t.dial p r).2 := by
  have hconnected : Orderly inbox heeded { t with owners := t.owners.put (Carrier.connect r p).1 p }
      (Carrier.connect r p).2 :=
    h.connect.unlink fun _ _ hl => hl
  exact hconnected.set rfl

theorem Orderly.ensure (h : Orderly inbox heeded t r) (p : Proc) :
    Orderly inbox heeded (t.ensure p r).1 (t.ensure p r).2 := by
  have hset : Orderly inbox heeded (t.set p (t.peer p)) r := h.set rfl
  unfold PeerTable.ensure
  dsimp only
  split
  · exact hset.dial p
  · exact hset

theorem Orderly.send (h : Orderly inbox heeded t r) (p : Proc) (payload : Bytes) :
    Orderly inbox heeded (t.send p payload r).1 (t.send p payload r).2 := by
  have hqueued : Orderly inbox heeded
      (t.set p { t.peer p with outbox := (t.peer p).outbox ++ [payload] }) r := h.set rfl
  unfold PeerTable.send
  dsimp only
  split
  · exact hqueued.pump p
  · exact (hqueued.dial p).pump p

theorem Orderly.forget (h : Orderly inbox heeded t r) (p : Proc) :
    Orderly inbox heeded (t.forget p r).1 (t.forget p r).2 := by
  unfold PeerTable.forget
  split
  · exact h
  · refine (h.disconnects _).unlink fun q l hl => ?_
    simp only [PeerTable.Links, PeerTable.peer, Table.get?_erase] at hl ⊢
    split at hl
    · cases hl
    · exact hl

theorem Orderly.onLost (h : Orderly inbox heeded t r) (c : ConnectionId) (remote : Option Proc)
    (reason : String) : Orderly inbox heeded (t.onLost c remote reason).2 r := by
  unfold PeerTable.onLost
  split
  · exact h
  · rename_i p _
    have herased : Orderly inbox heeded { t with owners := t.owners.erase c } r :=
      h.unlink fun _ _ hl => hl
    dsimp only
    split
    · exact herased
    · rename_i peer hpeer
      have hp : t.peer p = peer := PeerTable.peer_of_get? hpeer
      split
      · exact herased.set (congrArg Peer.link hp).symm
      · split
        · exact herased
        · split
          · refine herased.unlink fun q l hl => ?_
            rw [PeerTable.links_set] at hl
            split at hl
            · cases hl
            · exact hl
          · exact herased

/-- The link of a connection that asks becomes ready. -/
theorem Orderly.onReady (h : Orderly inbox heeded t r) (hc : Armed inbox r c) :
    Orderly inbox heeded (t.onReady c r).1 (t.onReady c r).2 := by
  unfold PeerTable.onReady
  split
  · exact h
  · rename_i p _
    split
    · exact h
    · rename_i peer hpeer
      refine Orderly.pump (h.relink fun q l' hl' => ?_) p
      rw [PeerTable.links_set] at hl'
      split at hl'
      · rename_i hq
        obtain ⟨l, hl, rfl⟩ := Option.map_eq_some_iff.mp hl'
        have hlinks : t.Links q l := by
          rw [hq, PeerTable.Links, PeerTable.peer_of_get? hpeer]
          exact hl
        split
        · rename_i hlc
          exact ⟨l, hlinks, rfl, fun _ => .inr (hlc ▸ hc)⟩
        · exact ⟨l, hlinks, rfl, .inl⟩
      · exact ⟨l', hl', rfl, .inl⟩

theorem Orderly.adopt (h : Orderly inbox heeded t r) (hc : Greeted t inbox r c) :
    Orderly inbox heeded (t.adopt c p key r).2.1 (t.adopt c p key r).2.2 := by
  refine Orderly.start (h.linked (p := p) hc fun q l hl => ?_) hc.up
  have hset : (t.set p { t.peer p with link := some ⟨c, key, false, none⟩ }).Links q l := hl
  rw [PeerTable.links_set] at hset
  split at hset
  · rename_i hq
    obtain rfl := Option.some.inj hset
    exact .inr ⟨hq, rfl, rfl⟩
  · exact .inl hset

theorem Greeted.set (h : Greeted t inbox r c) (hlink : peer.link = (t.peer p).link) :
    Greeted (t.set p peer) inbox r c :=
  ⟨h.known, h.up, fun conn hconn q l hl =>
    h.free conn hconn q l (PeerTable.links_of_set hlink hl)⟩

/-- A connection that is linked is not the one that has just completed its handshake. -/
theorem Greeted.close (h : Greeted t inbox r c) (hl : t.Links p l) :
    Greeted t inbox (Carrier.close r l.connection) c := by
  cases hconn : r.net.connection? l.connection with
  | none =>
    have hnet : (Carrier.close r l.connection).net = r.net := Transport.close_of_none hconn
    refine ⟨?_, ?_, ?_⟩ <;> rw [hnet]
    exacts [h.known, h.up, h.free]
  | some closed =>
    have hne : c ≠ l.connection := by
      intro hc
      exact h.free closed (hc ▸ hconn) p l hl hc.symm
    have hsame : (Carrier.close r l.connection).net.connection? c = r.net.connection? c :=
      Transport.connection?_close_of_ne hne
    have hrest : (Carrier.close r l.connection).net.nextId = r.net.nextId ∧
        (Carrier.close r l.connection).net.pending = r.net.pending := by
      change (Carrier.close r.net l.connection).nextId = _ ∧
        (Carrier.close r.net l.connection).pending = _
      rcases Transport.close_cases hconn with hnet | hnet <;> rw [hnet] <;> exact ⟨rfl, rfl⟩
    refine ⟨?_, ?_, ?_⟩
    · rw [hrest.1]
      exact h.known
    · rw [hsame, hrest.2]
      exact h.up
    · rw [hsame]
      exact h.free

theorem Orderly.onEstablished (h : Orderly inbox heeded t r) (hc : Greeted t inbox r c) :
    Orderly inbox heeded (t.onEstablished c p key r).2.1 (t.onEstablished c p key r).2.2 := by
  have hlink : ((t.peer p).reached c).link = (t.peer p).link := Peer.link_reached
  have hreached : Orderly inbox heeded (t.set p ((t.peer p).reached c)) r := h.set hlink
  have hgreeted : Greeted (t.set p ((t.peer p).reached c)) inbox r c := hc.set hlink
  rw [PeerTable.onEstablished_eq]
  dsimp only
  split
  · exact hreached.adopt hgreeted
  · rename_i link hlinked
    have hold : (t.set p ((t.peer p).reached c)).Links p link := by
      rw [PeerTable.links_set, if_pos rfl, hlink, hlinked]
    split
    · exact hreached.close.unlink fun _ _ hl => hl
    · exact hreached.close.unlink fun _ _ hl => hl
    · exact hreached.close.adopt (hgreeted.close hold)

/-! ### The run -/

namespace Switchboard

variable {s : Switchboard Recorded} {a : Action} {actions : List Action}

def Sound (s : Switchboard Recorded) : Prop := Orderly s.inbox s.heeded s.table s.host

theorem sound_take (h : Orderly (event :: s.inbox) heeded s.table s.host)
    (hheeded : s.heeded = heeded ++ [event]) : (s.take event).Sound := by
  have hnext : s.Sound := by
    rw [Sound, hheeded]
    exact h.heed
  -- What the event says of its connection is still so.
  have hgreeted : event.isGreeting = true → Greeted s.table s.inbox s.host event.connection := by
    intro hgreeting
    have hknown := h.events event List.mem_cons_self
    have hof := fun conn hconn => (h.tame event.connection conn hconn).of_greeting hgreeting rfl
    exact ⟨hknown, fun conn hconn => ⟨(hof conn hconn).1, (hof conn hconn).2.1⟩,
      fun conn hconn => (hof conn hconn).2.2⟩
  cases event with
  | accepted c remote key => exact hnext.onEstablished (hgreeted rfl)
  | connected c remote key => exact hnext.onEstablished (hgreeted rfl)
  | closed c remote | broken c remote cause => exact hnext.onLost c remote _
  | received c payload => exact hnext
  | ready c => exact hnext.onReady fun conn hconn => (h.tame c conn hconn).of_ready

theorem sound_step (h : s.Sound) : (s.step a).Sound := by
  cases a with
  | ensure p => exact h.ensure p
  | send p payload => exact h.send p payload
  | forget p => exact h.forget p
  | poll ready => exact h.poll ready
  | heed =>
    unfold step
    dsimp only
    split
    · exact h
    · rename_i event inbox hinbox
      rw [Sound, hinbox] at h
      exact sound_take h rfl
  | socket c socket => exact h.onSocket fun _ => socket

theorem sound_run (h : s.Sound) : (s.run actions).Sound := by
  induction actions generalizing s with
  | nil => exact h
  | cons a actions ih => exact ih (sound_step h)

/-- A process that has not dialed and was not dialed. -/
def opened (here : Proc) (config : TransportConfig) (network : Network) :
    Switchboard Transport where
  table := { here }
  host := { here, config, network }

/-- From here on what happens is recorded. -/
def recorded (s : Switchboard Transport) : Switchboard Recorded where
  table := s.table
  host := { net := s.host }
  inbox := s.inbox
  heeded := s.heeded

theorem sound_opened {here : Proc} {config : TransportConfig} {network : Network} :
    (opened here config network).recorded.Sound where
  tame c conn hconn := by cases hconn
  known c conn hconn := by cases hconn
  events e he := by cases he
  links p l hl := by cases hl
  marks m hm := by cases hm
  proper := .nil
  overwrites := rfl
  reported := rfl

/-- Whatever a process announces, sends and forgets, whatever its sockets do, and however late it
heeds what its transport reports: no message is set over another. A connection that asks for a
message can take it, was not told to close, and has been given one since it last asked. Between two
messages that it is given, it asks. What is recorded of the run is what is reported, and recording
it does not change the run. -/
theorem slot_never_overwritten (here : Proc) (config : TransportConfig) (network : Network)
    (actions : List Action) :
    let s := (opened here config network).run actions
    let r := (opened here config network).recorded.run actions
    s.host.overwrites = [] ∧
      (∀ before conn after, r.host.journal = before ++ .asked conn :: after →
        conn.Willing ∧ Mark.asking conn.id before = false ∧ .shut conn.id ∉ before) ∧
      (∀ before c mid after, r.host.journal = before ++ .took c :: mid ++ .took c :: after →
        ∃ conn, .asked conn ∈ mid ∧ conn.id = c) ∧
      Mark.askers r.host.journal = TransportEvent.askers (s.heeded ++ s.inbox ++ s.host.pending) ∧
      r.plain = s := by
  intro s r
  have hsame : r.plain = s := plain_run
  have hsound : r.Sound := sound_run sound_opened
  refine ⟨?_, ?_, ?_, ?_, hsame⟩
  · rw [← hsame]
    exact hsound.overwrites
  · intro before conn after hjournal
    exact (hjournal ▸ hsound.proper : Mark.Proper _).of_asked
  · intro before c mid after hjournal
    exact (hjournal ▸ hsound.proper : Mark.Proper _).separated
  · rw [← hsame]
    exact hsound.reported

/-- A process sends two messages to itself, and heeds what comes of it. -/
def twoMessages (here : Proc) : List Action :=
  [.send here [1], .send here [2], .poll [], .heed, .poll [], .heed, .poll [], .heed]

/-- Each of two messages is handed over after the connection has asked for it. -/
theorem twoMessages_asked :
    let journal := ((opened ⟨"a", 7000, 0⟩ {} (.isolated 49152)).recorded.run
      (twoMessages ⟨"a", 7000, 0⟩)).host.journal
    Mark.askers journal = [2, 2] ∧ ∃ before mid,
      journal = before ++ .took 2 :: mid ++ .took 2 :: [] ∧
        ∃ conn, .asked conn ∈ mid ∧ conn.id = 2 := by
  intro journal
  have htaken : journal =
      journal.take 1 ++ .took 2 :: (journal.drop 2).take 1 ++ .took 2 :: [] := by
    decide
  obtain ⟨-, -, hseparated, -⟩ :=
    slot_never_overwritten ⟨"a", 7000, 0⟩ {} (.isolated 49152) (twoMessages ⟨"a", 7000, 0⟩)
  exact ⟨by decide, _, _, htaken, hseparated _ _ _ _ htaken⟩

end Switchboard

end Multicast
