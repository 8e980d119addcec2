import Multicast.Proofs.Net.Inbound

/-! When a connection asks for a message: only while it is up, its sender is started, it is not
being closed and its slot is free, and not again before it was given one. -/
namespace Multicast

namespace TransportEvent

/-- The connection that an event is about. -/
def connection : TransportEvent → ConnectionId
  | accepted c _ _ | connected c _ _ | closed c _ | broken c _ _ | received c _ | ready c => c

/-- Whether an event says that a connection has completed its handshake. -/
def isGreeting : TransportEvent → Bool
  | accepted _ _ _ | connected _ _ _ => true
  | _ => false

/-- How often events say that a connection has completed its handshake. -/
def greetings (c : ConnectionId) (events : List TransportEvent) : Nat :=
  events.countP fun event => event.isGreeting && event.connection = c

/-- How often events ask for a message on a connection. -/
def asksOn (c : ConnectionId) (events : List TransportEvent) : Nat := events.count (.ready c)

/-- The connections that ask for a message, oldest first. -/
def askers (events : List TransportEvent) : List ConnectionId :=
  events.filterMap fun
    | ready c => some c
    | _ => none

variable {c d : ConnectionId} {events more : List TransportEvent} {event : TransportEvent}
  {payloads : List Bytes}

@[simp] theorem greetings_nil : greetings c [] = 0 := rfl
@[simp] theorem asksOn_nil : asksOn c [] = 0 := rfl

@[simp] theorem greetings_append :
    greetings c (events ++ more) = greetings c events + greetings c more :=
  List.countP_append

@[simp] theorem asksOn_append : asksOn c (events ++ more) = asksOn c events + asksOn c more :=
  List.count_append

@[simp] theorem askers_append : askers (events ++ more) = askers events ++ askers more :=
  List.filterMap_append

theorem greetings_received : greetings c (payloads.map (received d)) = 0 := by
  simp [greetings, List.countP_map, isGreeting, Function.comp_def]

theorem asksOn_received : asksOn c (payloads.map (received d)) = 0 := by
  rw [asksOn, List.count_eq_zero]
  simp

/-- Events about one connection say nothing of another. -/
theorem greetings_other (h : ∀ event ∈ events, event.connection = c) (hd : d ≠ c) :
    greetings d events = 0 := by
  rw [greetings, List.countP_eq_zero]
  intro event he
  simp [h event he, Ne.symm hd]

theorem asksOn_other (h : ∀ event ∈ events, event.connection = c) (hd : d ≠ c) :
    asksOn d events = 0 := by
  rw [asksOn, List.count_eq_zero]
  intro he
  exact hd (h _ he)

theorem askers_named (h : ∀ event ∈ events, event.connection = c) :
    askers events = List.replicate (asksOn c events) c := by
  induction events with
  | nil => rfl
  | cons event events ih =>
    obtain ⟨hevent, hrest⟩ := List.forall_mem_cons.mp h
    have hcons : askers (event :: events) = askers [event] ++ askers events := by
      rw [← askers_append]
      rfl
    rw [hcons, ih hrest, asksOn, asksOn, List.count_cons]
    cases event with
    | ready d =>
      obtain rfl : d = c := hevent
      simp [askers, List.replicate_succ]
    | accepted | connected | closed | broken | received => simp [askers]

end TransportEvent

open TransportEvent (greetings asksOn)

namespace Connection

variable {c c' c'' : Connection} {max : Nat} {events more : List TransportEvent}

/-- The connection can be given a message. -/
structure Willing (c : Connection) : Prop where
  phase : c.phase = .connected
  sender : c.senderEnabled = true
  closing : c.closing = false
  slot : c.slotOccupied = false

/-- One if the handshake is complete. -/
def up (c : Connection) : Nat := if c.phase = .connected then 1 else 0

/-- The connection goes on by itself: it is given no message and no order. -/
structure Attends (c c' : Connection) (events : List TransportEvent) : Prop where
  id : c'.id = c.id
  sender : c'.senderEnabled = c.senderEnabled
  closing : c'.closing = c.closing
  /-- No message gets into the slot. -/
  slot : c.slotOccupied = false → c'.slotOccupied = false
  named : ∀ event ∈ events, event.connection = c.id
  greets : c.up + greetings c.id events ≤ c'.up
  asks : c'.readySignalled.toNat = c.readySignalled.toNat + asksOn c.id events
  willing : asksOn c.id events ≠ 0 → c'.Willing

theorem up_le : c.up ≤ 1 := by
  unfold up
  split <;> omega

theorem up_eq_one : c.up = 1 ↔ c.phase = .connected := by
  unfold up
  split <;> simp_all

theorem Attends.refl : Attends c c [] :=
  ⟨rfl, rfl, rfl, fun hfree => hfree, nofun, Nat.le_refl _, rfl, fun h => (h rfl).elim⟩

theorem Attends.phase (h : Attends c c' events) (hc : c.phase = .connected) :
    c'.phase = .connected := by
  have hgreets := h.greets
  rw [up_eq_one.mpr hc] at hgreets
  exact up_eq_one.mp (Nat.le_antisymm up_le (by omega))

theorem Attends.keeps_willing (h : Attends c c' events) (hc : c.Willing) : c'.Willing :=
  ⟨h.phase hc.phase, h.sender.trans hc.sender, h.closing.trans hc.closing, h.slot hc.slot⟩

theorem Attends.trans (h : Attends c c' events) (h' : Attends c' c'' more) :
    Attends c c'' (events ++ more) where
  id := h'.id.trans h.id
  sender := h'.sender.trans h.sender
  closing := h'.closing.trans h.closing
  slot hc := h'.slot (h.slot hc)
  named event he := by
    rcases List.mem_append.mp he with he | he
    · exact h.named event he
    · exact (h'.named event he).trans h.id
  greets := by
    have hfirst := h.greets
    have hnext := h'.greets
    rw [h.id] at hnext
    rw [TransportEvent.greetings_append]
    omega
  asks := by
    rw [h'.asks, h.asks, h.id, TransportEvent.asksOn_append, Nat.add_assoc]
  willing hasks := by
    by_cases hmore : asksOn c.id more = 0
    · refine h'.keeps_willing (h.willing fun hnone => hasks ?_)
      rw [TransportEvent.asksOn_append, hnone, hmore]
    · exact h'.willing (h.id ▸ hmore)

/-! ### What a connection does by itself -/

/-- What carries the bytes may change. -/
theorem Attends.same (hid : c'.id = c.id) (hsender : c'.senderEnabled = c.senderEnabled)
    (hclosing : c'.closing = c.closing) (hslot : c.slotOccupied = false → c'.slotOccupied = false)
    (hphase : c'.phase = c.phase) (hsignal : c'.readySignalled = c.readySignalled) :
    Attends c c' [] :=
  ⟨hid, hsender, hclosing, hslot, nofun, by simp [up, hphase], by simp [hsignal],
    fun h => (h rfl).elim⟩

theorem Attends.received {payloads : List Bytes} (h : Attends c c' []) :
    Attends c c' (payloads.map (.received c.id)) where
  id := h.id
  sender := h.sender
  closing := h.closing
  slot := h.slot
  named event he := by
    obtain ⟨payload, -, rfl⟩ := List.mem_map.mp he
    rfl
  greets := by
    rw [TransportEvent.greetings_received]
    exact h.greets
  asks := by
    rw [TransportEvent.asksOn_received]
    exact h.asks
  willing hasks := (hasks TransportEvent.asksOn_received).elim

theorem attends_signalReady : Attends c c.signalReady.1 c.signalReady.2 := by
  unfold signalReady
  split
  · rename_i hready
    simp only [Bool.and_eq_true, decide_eq_true_eq, Bool.not_eq_true'] at hready
    obtain ⟨⟨⟨⟨hphase, hsender⟩, hclosing⟩, hslot⟩, hsignal⟩ := hready
    refine ⟨rfl, rfl, rfl, fun h => h, ?_, ?_, ?_, fun _ => ⟨hphase, hsender, hclosing, hslot⟩⟩
    · intro event he
      rw [List.mem_singleton.mp he]
      rfl
    · exact Nat.le_refl _
    · simp [asksOn, hsignal]
  · exact .refl

/-- A connection that is started goes on by itself from there. -/
theorem attends_start (h : (c.setReceiver true).setSender true = (c', events)) :
    Attends { c with receiverEnabled := true, senderEnabled := true } c' events := by
  have hsignal : signalReady { c with receiverEnabled := true, senderEnabled := true } =
    (c', events) := h
  have hattends := attends_signalReady
    (c := { c with receiverEnabled := true, senderEnabled := true })
  rwa [hsignal] at hattends

theorem attends_release : Attends c c.release.1 c.release.2 := by
  have hreleased : Attends c c.released [] := by
    unfold released
    split
    · exact .same rfl rfl rfl (fun _ => rfl) rfl rfl
    · exact .same rfl rfl rfl (fun _ => rfl) rfl rfl
  rw [release_eq]
  exact hreleased.trans attends_signalReady

theorem attends_written {s : Socket} : Attends c (c.written s) [] :=
  .same rfl rfl rfl (fun hfree => hfree) rfl rfl

theorem attends_flush (h : c.flush = .ok (c', events)) : Attends c c' events := by
  cases hlink : c.link with
  | loopback outbound inbox =>
    simp only [flush, hlink, Except.ok.injEq] at h
    have hmoved : Attends c { c with link := .loopback none (inbox ++ outbound.toList) } [] :=
      .same rfl rfl rfl (fun hfree => hfree) rfl rfl
    have hreleased := hmoved.trans attends_release
    rwa [h] at hreleased
  | socket s =>
    rw [flush_socket hlink] at h
    split at h
    · cases h
      exact .refl
    · split at h
      · have hreleased : Attends c c.release.1 c.release.2 := attends_release
        rwa [Except.ok.inj h] at hreleased
      · split at h
        · cases h
        · split at h
          · have hreleased := (attends_written (c := c) (s := s)).trans attends_release
            rwa [Except.ok.inj h] at hreleased
          · cases h
            exact attends_written

theorem attends_refreshed : Attends c c.refreshed [] := by
  unfold refreshed readSocket
  split
  · split
    · exact .refl
    · exact .same rfl rfl rfl (fun hfree => hfree) rfl rfl
  · exact .refl

theorem attends_greeted {peer : Proc} {rest : Bytes} (hc : c.phase ≠ .connected)
    (h : c.greeting peer = .ok events) : Attends c (c.greeted peer rest) events := by
  have hgreeting : asksOn c.id events = 0 ∧ greetings c.id events ≤ 1 ∧
      ∀ event ∈ events, event.connection = c.id := by
    unfold greeting at h
    split at h
    · split at h
      · cases h
        exact ⟨rfl, List.countP_le_length, by simp [TransportEvent.connection]⟩
      · cases h
    · cases h
      cases c.key with
      | none => exact ⟨rfl, by simp, by simp⟩
      | some key =>
        exact ⟨rfl, List.countP_le_length, by simp [TransportEvent.connection]⟩
    · rename_i hphase
      exact (hc hphase).elim
  obtain ⟨hasks, hgreets, hnamed⟩ := hgreeting
  refine ⟨rfl, rfl, rfl, fun hfree => hfree, hnamed, ?_, ?_, fun hne => (hne hasks).elim⟩
  · have hdown : c.up = 0 := by simp [up, hc]
    have hup : (c.greeted peer rest).up = 1 := up_eq_one.mpr rfl
    omega
  · rw [hasks]
    rfl

theorem attends_deliverFrames (h : Attends c c' events) :
    Attends c (c'.deliverFrames max events).connection (c'.deliverFrames max events).events := by
  by_cases hwanted : c'.phase = .connected ∧ c'.receiverEnabled = true
  · rw [deliverFrames_eq hwanted.1 hwanted.2]
    have hdrained : Attends c' (c'.drained max) [] := .same rfl rfl rfl (fun hfree => hfree) rfl rfl
    exact h.trans hdrained.received
  · rw [deliverFrames_waiting hwanted]
    exact h

theorem attends_processInbound :
    Attends c (c.processInbound max).connection (c.processInbound max).events := by
  by_cases hloop : c.isLoopback = true
  · cases hlink : c.link with
    | socket s => simp [isLoopback, hlink] at hloop
    | loopback outbound inbox =>
      simp only [processInbound, hlink]
      split
      · have hread : Attends c { c with link := .loopback outbound [] } [] :=
          .same rfl rfl rfl (fun hfree => hfree) rfl rfl
        exact hread.received
      · exact .refl
  have hsocket : c.isLoopback = false := by simpa using hloop
  by_cases hdialed : c.key.isSome = true
  · rw [processInbound_eq hsocket hdialed]
    have hrefreshed : Attends c c.refreshed [] := attends_refreshed
    split
    · rename_i hphase
      have hunread : c.refreshed.phase ≠ .connected := by rwa [refreshed_same.2.1]
      rw [advanceHandshake_eq hunread]
      cases Handshake.front c.refreshed.readBuffer with
      | incomplete => exact attends_deliverFrames hrefreshed
      | invalid e rest => exact hrefreshed
      | identity peer rest =>
        cases hgreet : c.refreshed.greeting peer with
        | error e =>
          simp only [hgreet]
          exact hrefreshed
        | ok greeted =>
          simp only [hgreet]
          have hgreeted : Attends c.refreshed (c.refreshed.greeted peer rest) greeted :=
            attends_greeted hunread hgreet
          exact attends_deliverFrames (hrefreshed.trans (hgreeted.trans attends_signalReady))
    · exact attends_deliverFrames hrefreshed
  · obtain ⟨s, hlink⟩ := link_of_socket hsocket
    have hnone : c.key.isNone = true := by simpa using hdialed
    simp only [processInbound, hlink, hnone, if_true]
    exact .refl

theorem attends_finishDial (h : c.finishDial = .ok c') : Attends c c' [] := by
  unfold finishDial at h
  split at h
  · cases h
    exact .refl
  · split at h
    · cases h
      exact .refl
    · split at h
      · cases h
        exact .refl
      · cases h
      · cases h
        exact .same rfl rfl rfl (fun hfree => hfree) rfl rfl

/-- The states that a connection passes through while it is attended to, each with the events that
are reported on the way to it. -/
def stages (c : Connection) (max : Nat) : List (Connection × List TransportEvent) :=
  match c.finishDial with
  | .error _ => []
  | .ok c =>
    (c, []) ::
      if !c.isDialed then []
      else
        match c.flush with
        | .error _ => []
        | .ok (c, written) =>
          let r := c.processInbound max
          (c, written) :: (r.connection, r.events) ::
            match r.outcome with
            | .ok .alive =>
              match r.connection.flush with
              | .error _ => []
              | .ok (c, more) => [(c, more)]
            | _ => []

/-- A connection goes on by itself from one state to the next. -/
inductive Passes : Connection → List (Connection × List TransportEvent) → Connection → Prop
  | done {c : Connection} : Passes c [] c
  | next {c c' c'' : Connection} {events : List TransportEvent}
      {stages : List (Connection × List TransportEvent)} (attends : Attends c c' events)
      (rest : Passes c' stages c'') : Passes c ((c', events) :: stages) c''

theorem Passes.attends {stages : List (Connection × List TransportEvent)}
    (h : Passes c stages c') : Attends c c' (stages.flatMap (·.2)) := by
  induction h with
  | done => exact .refl
  | next attends _ ih => exact attends.trans ih

theorem passes_one (h : Attends c c' events) : Passes c [(c', events)] c' := .next h .done

/-- What is reported is what the stages report. The last is what the connection is left in, if it is
kept. -/
theorem service_stages : ∃ c', Passes c (c.stages max) c' ∧
    (c.service max).events = (c.stages max).flatMap (·.2) ∧
    ((c.service max).outcome = .ok .alive → (c.service max).connection = c') := by
  cases hdial : c.finishDial with
  | error e =>
    simp only [stages, service, hdial]
    refine ⟨c, .done, rfl, fun hkept => ?_⟩
    cases hkept
  | ok c₀ =>
    have hdialed := attends_finishDial hdial
    simp only [stages, service, hdial]
    cases c₀.isDialed with
    | false => exact ⟨c₀, passes_one hdialed, rfl, fun _ => rfl⟩
    | true =>
      simp only [Bool.not_true, Bool.false_eq_true, if_false]
      cases hflush : c₀.flush with
      | error e =>
        refine ⟨c₀, passes_one hdialed, rfl, fun hkept => ?_⟩
        cases hkept
      | ok result =>
        obtain ⟨c₁, written⟩ := result
        have hwritten := attends_flush hflush
        have hread : Attends c₁ (c₁.processInbound max).connection
          (c₁.processInbound max).events := attends_processInbound
        dsimp only
        generalize c₁.processInbound max = r at hread ⊢
        obtain ⟨c₂, events, outcome⟩ := r
        have hgone := Passes.next hdialed (.next hwritten (passes_one hread))
        dsimp only at hgone ⊢
        rcases outcome with e | _ | _
        · exact ⟨c₂, hgone, by simp, fun _ => rfl⟩
        · cases hflush' : c₂.flush with
          | error e =>
            refine ⟨c₂, hgone, by simp, fun hkept => ?_⟩
            cases hkept
          | ok result =>
            obtain ⟨c₃, more⟩ := result
            have hmore := passes_one (attends_flush hflush')
            exact ⟨c₃, .next hdialed (.next hwritten (.next hread hmore)), by simp, fun _ => rfl⟩
        · exact ⟨c₂, hgone, by simp, fun _ => rfl⟩

end Connection

end Multicast
