import Multicast.Proofs.Node.Duplicates
import Multicast.Proofs.Node.Switchboard

/-! What a peer table may take for granted of the connections of its transport, whatever events are
on their way: a link is ready only if the connection waits for a message. -/
namespace Multicast

open TransportEvent (greetings asksOn asksOn_nil)

/-- `p` is reached over `l`. -/
def PeerTable.Links (t : PeerTable) (p : Proc) (l : PeerLink) : Prop := (t.peer p).link = some l

/-- What holds of a connection, some events being on their way to the table. -/
structure Tame (t : PeerTable) (queue : List TransportEvent) (journal : List Mark)
    (c : ConnectionId) (conn : Connection) : Prop where
  id : conn.id = c
  follows : Mark.Follows journal conn
  slot : conn.readySignalled = true → conn.slotOccupied = false
  greets : greetings c queue ≤ conn.up
  /-- Before the table heeds that the handshake is complete, nothing is done with the connection. -/
  unheeded : conn.up = 0 ∨ greetings c queue ≠ 0 →
    conn.senderEnabled = false ∧ asksOn c queue = 0 ∧ ∀ p l, t.Links p l → l.connection ≠ c
  asks : asksOn c queue ≤ conn.readySignalled.toNat
  /-- The question is on its way or known to the table, not both. -/
  ready : ∀ p l, t.Links p l → l.connection = c → l.ready = true →
    conn.readySignalled = true ∧ asksOn c queue = 0
  owner : ∀ p q l m, t.Links p l → t.Links q m → l.connection = c → m.connection = c → p = q

/-- What holds of a table and its transport. The events of the inbox, then the pending ones, are on
their way. -/
structure Orderly (inbox heeded : List TransportEvent) (t : PeerTable) (r : Recorded) : Prop where
  tame : ∀ c conn, r.net.connection? c = some conn →
    Tame t (inbox ++ r.net.pending) r.journal c conn
  known : ∀ c conn, r.net.connection? c = some conn → c < r.net.nextId
  events : ∀ e ∈ inbox ++ r.net.pending, e.connection < r.net.nextId
  links : ∀ p l, t.Links p l → l.connection < r.net.nextId
  marks : ∀ m ∈ r.journal, m.connection < r.net.nextId
  proper : Mark.Proper r.journal
  overwrites : r.net.overwrites = []
  reported : Mark.askers r.journal = TransportEvent.askers (heeded ++ inbox ++ r.net.pending)

/-- All that is reported and recorded of a change is about the connection `c`. -/
structure Concerns (c : ConnectionId) (events : List TransportEvent) (marks : List Mark)
    (r r' : Recorded) : Prop where
  grows : r.net.nextId ≤ r'.net.nextId
  known : c < r'.net.nextId
  pending : r'.net.pending = r.net.pending ++ events
  overwrites : r'.net.overwrites = r.net.overwrites
  journal : r'.journal = r.journal ++ marks
  named : ∀ e ∈ events, e.connection = c
  marked : ∀ m ∈ marks, m.connection = c
  reported : Mark.askers marks = TransportEvent.askers events

variable {inbox heeded events queue : List TransportEvent} {journal marks : List Mark}
  {t t' : PeerTable} {r r' : Recorded} {net : Transport} {c d : ConnectionId} {p q : Proc}
  {conn conn' : Connection} {l : PeerLink}

/-! ### One connection -/

theorem Tame.other (h : Tame t queue journal d conn) (hd : d ≠ c)
    (hevents : ∀ e ∈ events, e.connection = c) (hmarks : ∀ m ∈ marks, m.connection = c)
    (hproper : Mark.Proper (journal ++ marks)) :
    Tame t (queue ++ events) (journal ++ marks) d conn := by
  have hgreets : greetings d (queue ++ events) = greetings d queue := by
    rw [TransportEvent.greetings_append, TransportEvent.greetings_other hevents hd, Nat.add_zero]
  have hasks : asksOn d (queue ++ events) = asksOn d queue := by
    rw [TransportEvent.asksOn_append, TransportEvent.asksOn_other hevents hd, Nat.add_zero]
  have hid : conn.id ≠ c := by rwa [h.id]
  refine ⟨h.id, ⟨hproper, ?_, ?_⟩, h.slot, ?_, ?_, ?_, ?_, h.owner⟩
  · rw [Mark.asking_other hmarks hid, h.follows.asking]
  · intro hs
    rcases List.mem_append.mp hs with hs | hs
    · exact h.follows.shut hs
    · exact (hid (hmarks _ hs)).elim
  · rw [hgreets]
    exact h.greets
  · rw [hgreets, hasks]
    exact h.unheeded
  · rw [hasks]
    exact h.asks
  · rw [hasks]
    exact h.ready

/-- A connection that goes on by itself stays tame. -/
theorem Tame.attends (h : Tame t queue journal c conn) (ha : conn.Attends conn' events)
    (hf : Mark.Follows marks conn') : Tame t (queue ++ events) marks c conn' := by
  have hgreets := ha.greets
  have hasks := ha.asks
  have hbound := Bool.toNat_le conn'.readySignalled
  have hup := conn'.up_le
  have hwilling := ha.willing
  have hbefore := h.greets
  have hopen := h.asks
  rw [h.id] at hgreets hasks hwilling
  refine ⟨ha.id.trans h.id, hf, ?_, ?_, ?_, ?_, ?_, h.owner⟩
  · intro hs
    by_cases hnone : asksOn c events = 0
    · refine ha.slot (h.slot ?_)
      cases hr : conn.readySignalled with
      | true => rfl
      | false => simp [hs, hr, hnone] at hasks
    · exact (hwilling hnone).slot
  · rw [TransportEvent.greetings_append]
    omega
  · rw [TransportEvent.greetings_append, TransportEvent.asksOn_append]
    intro hnew
    obtain ⟨hsender, hnone, hlinks⟩ := h.unheeded (by omega)
    refine ⟨ha.sender.trans hsender, ?_, hlinks⟩
    by_contra hne
    have hstarted := (hwilling (by omega)).sender
    rw [ha.sender, hsender] at hstarted
    cases hstarted
  · rw [TransportEvent.asksOn_append]
    omega
  · intro p l hl hc hready
    obtain ⟨hs, hnone⟩ := h.ready p l hl hc hready
    rw [hs, Bool.toNat_true] at hasks
    rw [TransportEvent.asksOn_append]
    refine ⟨?_, by omega⟩
    cases hs' : conn'.readySignalled with
    | true => rfl
    | false => simp [hs'] at hasks; omega

/-- A connection that has just been opened, and of which nothing is known. -/
theorem Orderly.tame_new (h : Orderly inbox heeded t r) (hid : conn.id = r.net.nextId)
    (hsender : conn.senderEnabled = false) (hsignal : conn.readySignalled = false)
    (hgreets : greetings r.net.nextId events ≤ conn.up)
    (hasks : asksOn r.net.nextId events = 0) :
    Tame t (inbox ++ r.net.pending ++ events) r.journal r.net.nextId conn := by
  have hmarks : ∀ m ∈ r.journal, m.connection ≠ conn.id := by
    intro m hm
    rw [hid]
    exact Nat.ne_of_lt (h.marks m hm)
  have hlinks : ∀ p l, t.Links p l → l.connection ≠ r.net.nextId :=
    fun p l hl => Nat.ne_of_lt (h.links p l hl)
  have hqueue : ∀ e ∈ inbox ++ r.net.pending, e.connection ≠ r.net.nextId :=
    fun e he => Nat.ne_of_lt (h.events e he)
  have hgreetsOld : greetings r.net.nextId (inbox ++ r.net.pending) = 0 := by
    rw [greetings, List.countP_eq_zero]
    intro e he
    simp [hqueue e he]
  have hasksOld : asksOn r.net.nextId (inbox ++ r.net.pending) = 0 := by
    rw [asksOn, List.count_eq_zero]
    exact fun he => hqueue _ he rfl
  have hnone : asksOn r.net.nextId (inbox ++ r.net.pending ++ events) = 0 := by
    rw [TransportEvent.asksOn_append, hasksOld, hasks]
  refine ⟨hid, ⟨h.proper, ?_, ?_⟩, ?_, ?_, ?_, ?_, ?_, ?_⟩
  · rw [Mark.asking_of_unmarked hmarks, hsignal]
  · exact fun hs => (hmarks _ hs rfl).elim
  · intro hs
    rw [hsignal] at hs
    cases hs
  · rwa [TransportEvent.greetings_append, hgreetsOld, Nat.zero_add]
  · exact fun _ => ⟨hsender, hnone, hlinks⟩
  · rw [hnone]
    exact Nat.zero_le _
  · exact fun p l hl hc => (hlinks p l hl hc).elim
  · exact fun p q l m hl _ hc => (hlinks p l hl hc).elim

/-! ### Changes to one connection -/

/-- A change of which there is nothing to report and to record. -/
theorem Concerns.quiet (hgrows : r.net.nextId ≤ r'.net.nextId) (hknown : c < r'.net.nextId)
    (hpending : r'.net.pending = r.net.pending) (hover : r'.net.overwrites = r.net.overwrites)
    (hjournal : r'.journal = r.journal) : Concerns c [] [] r r' where
  grows := hgrows
  known := hknown
  pending := by rw [hpending, List.append_nil]
  overwrites := hover
  journal := by rw [hjournal, List.append_nil]
  named := List.forall_mem_nil _
  marked := List.forall_mem_nil _
  reported := rfl

/-- It is enough to see to the connection that is changed. -/
theorem Orderly.change (h : Orderly inbox heeded t r) (hr : Concerns c events marks r r')
    (hothers : ∀ d, d ≠ c → r'.net.connection? d = r.net.connection? d)
    (hself : ∀ conn, r'.net.connection? c = some conn →
      Tame t (inbox ++ r.net.pending ++ events) r'.journal c conn)
    (hproper : Mark.Proper r'.journal) : Orderly inbox heeded t r' where
  tame d conn hconn := by
    rw [hr.pending, ← List.append_assoc]
    by_cases hd : d = c
    · subst hd
      exact hself conn hconn
    · rw [hothers d hd] at hconn
      rw [hr.journal] at hproper ⊢
      exact (h.tame d conn hconn).other hd hr.named hr.marked hproper
  known d conn hconn := by
    by_cases hd : d = c
    · rw [hd]
      exact hr.known
    · rw [hothers d hd] at hconn
      exact Nat.lt_of_lt_of_le (h.known d conn hconn) hr.grows
  events e he := by
    rw [hr.pending, ← List.append_assoc] at he
    rcases List.mem_append.mp he with he | he
    · exact Nat.lt_of_lt_of_le (h.events e he) hr.grows
    · rw [hr.named e he]
      exact hr.known
  links p l hl := Nat.lt_of_lt_of_le (h.links p l hl) hr.grows
  marks m hm := by
    rw [hr.journal] at hm
    rcases List.mem_append.mp hm with hm | hm
    · exact Nat.lt_of_lt_of_le (h.marks m hm) hr.grows
    · rw [hr.marked m hm]
      exact hr.known
  proper := hproper
  overwrites := hr.overwrites.trans h.overwrites
  reported := by
    rw [hr.journal, hr.pending, ← List.append_assoc, TransportEvent.askers_append,
      Mark.askers_append, h.reported, hr.reported]

/-- A connection is opened or replaced. -/
theorem Orderly.put (h : Orderly inbox heeded t r) (hr : Concerns c events marks r r')
    (hput : ∀ d, r'.net.connection? d = if d = c then some conn else r.net.connection? d)
    (htame : Tame t (inbox ++ r.net.pending ++ events) r'.journal c conn) :
    Orderly inbox heeded t r' := by
  refine h.change hr (fun d hd => by rw [hput, if_neg hd]) ?_ htame.follows.proper
  intro conn' hconn
  rw [hput, if_pos rfl] at hconn
  cases hconn
  exact htame

/-- A connection is dropped. -/
theorem Orderly.drop (h : Orderly inbox heeded t r) (hr : Concerns c events marks r r')
    (herase : r'.net.connections = r.net.connections.erase c)
    (hproper : Mark.Proper r'.journal) : Orderly inbox heeded t r' := by
  have herased : ∀ d, r'.net.connection? d = if d = c then none else r.net.connection? d := by
    intro d
    rw [Transport.connection?, herase, Table.get?_erase]
    rfl
  refine h.change hr (fun d hd => by rw [herased, if_neg hd]) ?_ hproper
  intro conn hconn
  rw [herased, if_pos rfl] at hconn
  cases hconn

/-! ### What the table asks of the transport -/

theorem Orderly.connect (h : Orderly inbox heeded t r) :
    Orderly inbox heeded t (Carrier.connect r p).2 := by
  change Orderly inbox heeded t { r with net := (r.net.connect p).2 }
  have hnext : r.net.nextId < r.net.nextId + 1 := Nat.lt_succ_self _
  -- The outcome of a dial that is known at once is reported.
  have hconcerns : ∀ event net', TransportEvent.connection event = r.net.nextId →
      TransportEvent.askers [event] = [] → net'.nextId = r.net.nextId + 1 →
      net'.pending = r.net.pending ++ [event] → net'.overwrites = r.net.overwrites →
      Concerns r.net.nextId [event] [] r { r with net := net' } := by
    intro event net' hevent hquiet hnext' hpending hover
    refine ⟨?_, hnext' ▸ hnext, hpending, hover, (List.append_nil _).symm, ?_,
      List.forall_mem_nil _, hquiet.symm⟩
    · exact Nat.le_of_lt (hnext' ▸ hnext)
    · intro e he
      rwa [List.mem_singleton.mp he]
  unfold Transport.connect
  dsimp only
  split
  · exact h.put (hconcerns (.connected r.net.nextId p none) _ rfl rfl rfl rfl rfl)
      (fun _ => Table.get?_put) (h.tame_new rfl rfl rfl List.countP_le_length rfl)
  · split
    · exact h.put (.quiet (Nat.le_of_lt hnext) hnext rfl rfl rfl) (fun _ => Table.get?_put)
        (h.tame_new rfl rfl rfl (Nat.zero_le _) rfl)
    · rename_i e _
      refine h.change (hconcerns (.broken r.net.nextId (some p) e) _ rfl rfl rfl rfl rfl)
        (fun _ _ => rfl) ?_ h.proper
      intro conn hconn
      exact (Nat.lt_irrefl _ (h.known _ conn hconn)).elim

theorem Orderly.disconnect (h : Orderly inbox heeded t r) :
    Orderly inbox heeded t (Carrier.disconnect r c) := by
  change Orderly inbox heeded t { r with net := (r.net.disconnect c).toOption.getD r.net }
  cases hconn : r.net.connection? c with
  | none =>
    simp only [Transport.disconnect, hconn]
    exact h
  | some conn =>
    simp only [Transport.disconnect, hconn]
    exact h.drop (.quiet (Nat.le_refl _) (h.known c conn hconn) rfl rfl rfl) rfl h.proper

theorem Orderly.disconnects (h : Orderly inbox heeded t r) (ids : List ConnectionId) :
    Orderly inbox heeded t (ids.foldl Carrier.disconnect r) := by
  induction ids generalizing r with
  | nil => exact h
  | cons c ids ih => exact ih h.disconnect

/-- A connection that closes keeps what it was given, and asks for no more. -/
theorem Tame.beginClose (h : Tame t queue journal c conn) :
    Tame t queue (journal ++ [.shut c]) c conn.beginClose where
  id := h.id
  follows := by
    refine ⟨.shut h.follows.proper, ?_, fun _ => rfl⟩
    rw [Mark.asking_append_singleton]
    exact h.follows.asking
  slot := h.slot
  greets := h.greets
  unheeded hnew := ⟨rfl, (h.unheeded hnew).2⟩
  asks := h.asks
  ready := h.ready
  owner := h.owner

/-- What is recorded of a connection that is dropped does not matter any more. -/
theorem Orderly.close (h : Orderly inbox heeded t r) :
    Orderly inbox heeded t (Carrier.close r c) := by
  change Orderly inbox heeded t ⟨Carrier.close r.net c,
    r.journal ++ if (r.net.connection? c).isSome then [.shut c] else []⟩
  cases hconn : r.net.connection? c with
  | none =>
    rw [Transport.close_of_none hconn, Option.isSome_none, if_neg Bool.false_ne_true,
      List.append_nil]
    exact h
  | some conn =>
    have hmarks : ∀ m ∈ [Mark.shut c], m.connection = c := by simp [Mark.connection]
    have hconcerns : ∀ net', net'.nextId = r.net.nextId → net'.pending = r.net.pending →
        net'.overwrites = r.net.overwrites →
        Concerns c [] [.shut c] r ⟨net', r.journal ++ [.shut c]⟩ := by
      intro net' hnext hpending hover
      refine ⟨Nat.le_of_eq hnext.symm, ?_, ?_, hover, rfl, List.forall_mem_nil _, hmarks, rfl⟩
      · exact Nat.lt_of_lt_of_eq (h.known c conn hconn) hnext.symm
      · rw [hpending, List.append_nil]
    rw [Option.isSome_some, if_pos rfl]
    rcases Transport.close_cases hconn with hnet | hnet
    · rw [hnet]
      exact h.drop (hconcerns _ rfl rfl rfl) rfl (.shut h.proper)
    · rw [hnet]
      refine h.put (hconcerns _ rfl rfl rfl) (fun _ => Table.get?_put) ?_
      rw [List.append_nil]
      exact (h.tame c conn hconn).beginClose

/-- A connection that the table has linked is started. -/
theorem Tame.start (h : Tame t queue journal c conn) (hup : conn.phase = .connected)
    (hheeded : greetings c queue = 0) {started : Connection}
    (hevents : (conn.setReceiver true).setSender true = (started, events)) :
    Tame t (queue ++ events) (journal ++ Mark.ofStage (started, events)) c started := by
  let opened : Connection := { conn with receiverEnabled := true, senderEnabled := true }
  have hfollows : Mark.Follows journal opened :=
    ⟨h.follows.proper, h.follows.asking, h.follows.shut⟩
  have hone : opened.up = 1 := Connection.up_eq_one.mpr hup
  have hopened : Tame t queue journal c opened := by
    refine ⟨h.id, hfollows, h.slot, h.greets, ?_, h.asks, h.ready, h.owner⟩
    rintro (hdown | hnew)
    · rw [hone] at hdown
      cases hdown
    · exact (hnew hheeded).elim
  have hattends : opened.Attends started events := Connection.attends_start hevents
  exact hopened.attends hattends (hfollows.attends hattends)

theorem Orderly.start (h : Orderly inbox heeded t r)
    (hc : ∀ conn, r.net.connection? c = some conn →
      conn.phase = .connected ∧ greetings c (inbox ++ r.net.pending) = 0) :
    Orderly inbox heeded t (Carrier.start r c).2 := by
  cases hconn : r.net.connection? c with
  | none =>
    change Orderly inbox heeded t ⟨(Carrier.start r.net c).2, r.journal ++ _⟩
    simp only [Carrier.start, Transport.setReceiver, hconn, List.append_nil]
    exact h
  | some conn =>
    obtain ⟨hup, hheeded⟩ := hc conn hconn
    have htame := h.tame c conn hconn
    cases hstart : (conn.setReceiver true).setSender true with
    | mk started events =>
      have hstarted := htame.start hup hheeded hstart
      change Orderly inbox heeded t ⟨(Carrier.start r.net c).2, r.journal ++ _⟩
      rw [Transport.start_eq hconn hstart]
      simp only [hconn, hstart]
      have hattends := Connection.attends_start hstart
      have hnamed : ∀ e ∈ events, e.connection = c :=
        fun e he => (hattends.named e he).trans htame.id
      have hid : started.id = c := hstarted.id
      have hreported : Mark.askers (Mark.ofStage (started, events)) =
          TransportEvent.askers events := by
        rw [Mark.askers_ofStage, hid, TransportEvent.askers_named hnamed]
      refine h.put ⟨Nat.le_refl _, h.known c conn hconn, rfl, rfl, rfl, hnamed,
        Mark.connection_ofStage hid, hreported⟩ ?_ hstarted
      intro d
      rw [Transport.connection?, Table.get?_put, Table.get?_put]
      split <;> rfl

/-! ### What the transport does by itself -/

/-- A connection that is attended to is kept, or dropped and its loss reported last. -/
theorem Transport.service_cases (hconn : net.connection? c = some conn) :
    let s := conn.service net.config.maxFrameSize
    (s.outcome = .ok .alive ∧ net.service c = { net with
      connections := net.connections.put c s.connection, pending := net.pending ++ s.events }) ∨
    ∃ lost, TransportEvent.connection lost = c ∧ TransportEvent.askers [lost] = [] ∧
      net.service c = { net with
        connections := net.connections.erase c
        pending := net.pending ++ (s.events ++ [lost]) } := by
  intro s
  rcases houtcome : s.outcome with e | _ | _
  · right
    refine ⟨.broken c s.connection.remote e, rfl, rfl, ?_⟩
    simp only [service, hconn, s, houtcome, List.append_assoc]
  · left
    refine ⟨rfl, ?_⟩
    simp only [service, hconn, s, houtcome]
  · right
    refine ⟨.closed c s.connection.remote, rfl, rfl, ?_⟩
    simp only [service, hconn, s, houtcome, List.append_assoc]

theorem Orderly.service (h : Orderly inbox heeded t r) : Orderly inbox heeded t (r.service c) := by
  cases hconn : r.net.connection? c with
  | none =>
    simp only [Recorded.service, Transport.service, hconn, List.append_nil]
    exact h
  | some conn =>
    have htame := h.tame c conn hconn
    have hknown := h.known c conn hconn
    obtain ⟨conn', hpasses, hevents, halive⟩ :=
      @Connection.service_stages conn r.net.config.maxFrameSize
    have hfollows := htame.follows.passes hpasses
    have hmarks := fun m hm => (Mark.connection_of_passes hpasses m hm).trans htame.id
    have hattends := hpasses.attends
    have hreported := Mark.askers_of_passes hpasses
    rw [← hevents] at hattends hreported
    have hnamed := fun e he => (hattends.named e he).trans htame.id
    simp only [Recorded.service, hconn]
    rcases Transport.service_cases hconn with ⟨hkept, hnet⟩ | ⟨lost, hlost, hquiet, hnet⟩
    · rw [hnet, halive hkept]
      exact h.put ⟨Nat.le_refl _, hknown, rfl, rfl, rfl, hnamed, hmarks, hreported⟩
        (fun _ => Table.get?_put) (htame.attends hattends hfollows)
    · rw [hnet]
      refine h.drop ⟨Nat.le_refl _, hknown, rfl, rfl, rfl, ?_, hmarks, ?_⟩ rfl hfollows.proper
      · intro e he
        rcases List.mem_append.mp he with he | he
        · exact hnamed e he
        · rwa [List.mem_singleton.mp he]
      · rw [TransportEvent.askers_append, hquiet, List.append_nil, hreported]

theorem Orderly.services (h : Orderly inbox heeded t r) (ids : List ConnectionId) :
    Orderly inbox heeded t (ids.foldl Recorded.service r) := by
  induction ids generalizing r with
  | nil => exact h
  | cons c ids ih => exact ih h.service

theorem Orderly.serviceDirty (h : Orderly inbox heeded t r) :
    Orderly inbox heeded t r.serviceDirty := by
  have hnone : Orderly inbox heeded t { r with net := { r.net with dirty := [] } } :=
    ⟨h.tame, h.known, h.events, h.links, h.marks, h.proper, h.overwrites, h.reported⟩
  exact hnone.services r.net.dirty

theorem Orderly.accepts (h : Orderly inbox heeded t r) (sockets : List (ConnectionKey × Socket)) :
    Orderly inbox heeded t { r with net := sockets.foldl Transport.accept r.net } := by
  induction sockets generalizing r with
  | nil => exact h
  | cons s sockets ih =>
    refine ih (r := { r with net := r.net.accept s }) ?_
    exact h.put (.quiet (Nat.le_succ _) (Nat.lt_succ_self _) rfl rfl rfl)
      (fun _ => Table.get?_put) (h.tame_new rfl rfl rfl (Nat.zero_le _) rfl)

theorem Orderly.heeds (h : Orderly inbox heeded t r) (ready : List Readiness) :
    Orderly inbox heeded t (ready.foldl Recorded.heed r) := by
  induction ready generalizing r with
  | nil => exact h
  | cons x ready ih =>
    cases x with
    | incoming sockets => exact ih (h.accepts sockets)
    | connection c => exact ih h.service

/-- What is reported is on its way still. -/
theorem Orderly.poll (h : Orderly inbox heeded t r) (ready : List Readiness) :
    Orderly (inbox ++ (Host.poll r ready).1) heeded t (Host.poll r ready).2 := by
  have hpolled : Orderly inbox heeded t (ready.foldl Recorded.heed r.serviceDirty).serviceDirty :=
    (h.serviceDirty.heeds ready).serviceDirty
  change Orderly (inbox ++ (r.poll ready).1) heeded t (r.poll ready).2
  unfold Recorded.poll
  dsimp only
  generalize (ready.foldl Recorded.heed r.serviceDirty).serviceDirty = r' at hpolled
  refine ⟨?_, hpolled.known, ?_, hpolled.links, hpolled.marks, hpolled.proper, hpolled.overwrites,
    ?_⟩
  · rw [List.append_nil]
    exact hpolled.tame
  · rw [List.append_nil]
    exact hpolled.events
  · rw [List.append_nil, ← List.append_assoc]
    exact hpolled.reported

theorem Orderly.onSocket (h : Orderly inbox heeded t r) (f : Socket → Socket) :
    Orderly inbox heeded t (Host.onSocket r c f) := by
  change Orderly inbox heeded t { r with net := r.net.update c (·.onSocket f) }
  cases hconn : r.net.connection? c with
  | none =>
    simp only [Transport.update, hconn]
    exact h
  | some conn =>
    simp only [Transport.update, hconn]
    have htame := h.tame c conn hconn
    have hattends : conn.Attends (conn.onSocket f) [] := by
      unfold Connection.onSocket
      split
      · exact .same rfl rfl rfl (fun hfree => hfree) rfl rfl
      · exact .refl
    have hfollows := htame.follows.attends hattends
    rw [Mark.ofStage, asksOn_nil, List.replicate_zero, List.append_nil] at hfollows
    exact h.put (.quiet (Nat.le_refl _) (h.known c conn hconn) rfl rfl rfl)
      (fun _ => Table.get?_put) (htame.attends hattends hfollows)

/-! ### The event that the table heeds next -/

section
variable {event : TransportEvent}

theorem Tame.heed (h : Tame t (event :: queue) journal c conn) :
    Tame t queue journal c conn := by
  have hgreets : greetings c queue ≤ greetings c (event :: queue) := by
    simp [greetings, List.countP_cons]
  have hasks : asksOn c queue ≤ asksOn c (event :: queue) := List.count_le_count_cons
  refine ⟨h.id, h.follows, h.slot, Nat.le_trans hgreets h.greets, ?_, Nat.le_trans hasks h.asks,
    ?_, h.owner⟩
  · intro hnew
    obtain ⟨hsender, hnone, hlinks⟩ := h.unheeded (by omega)
    exact ⟨hsender, by omega, hlinks⟩
  · intro p l hl hc hready
    obtain ⟨hs, hnone⟩ := h.ready p l hl hc hready
    exact ⟨hs, by omega⟩

theorem Orderly.heed (h : Orderly (event :: inbox) heeded t r) :
    Orderly inbox (heeded ++ [event]) t r :=
  { h with
    tame := fun c conn hconn => (h.tame c conn hconn).heed
    events := fun e he => h.events e (List.mem_cons_of_mem _ he)
    reported := by simpa using h.reported }

/-- A connection whose handshake is complete is up, is not greeted again, and is not linked. -/
theorem Tame.of_greeting (h : Tame t (event :: queue) journal c conn)
    (hgreeting : event.isGreeting = true) (hevent : event.connection = c) :
    conn.phase = .connected ∧ greetings c queue = 0 ∧ ∀ p l, t.Links p l → l.connection ≠ c := by
  have hone : greetings c (event :: queue) = greetings c queue + 1 := by
    simp [greetings, hgreeting, hevent]
  have hgreets := h.greets
  have hup := conn.up_le
  exact ⟨Connection.up_eq_one.mp (by omega), by omega, (h.unheeded (by omega)).2.2⟩

/-- A connection that asks does not ask twice. -/
theorem Tame.of_ready (h : Tame t (.ready c :: queue) journal c conn) :
    conn.readySignalled = true ∧ asksOn c queue = 0 := by
  have hone : asksOn c (.ready c :: queue) = asksOn c queue + 1 := by
    simp [asksOn]
  have hasks := h.asks
  cases hs : conn.readySignalled with
  | true =>
    rw [hs, Bool.toNat_true] at hasks
    exact ⟨rfl, by omega⟩
  | false =>
    rw [hs, Bool.toNat_false] at hasks
    omega

end

end Multicast
