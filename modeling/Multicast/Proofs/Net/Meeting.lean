import Mathlib.Data.List.Induction
import Multicast.Proofs.Net.Encounter

/-! How far two ends have got that are introduced to each other: either both go on, and the identity
that one of them waits for is on its way, or the end that dialed has found another process than it
wants. -/
namespace Multicast

open TransportEvent (inbound)

namespace Encounter

/-- Both ends go on. Of the identity that an end waits for, nothing is lost on the way. -/
structure Underway (d : Dial) (stage : Stage) (w : Encounter) : Prop where
  active : w.active.Goes d.near d.caller stage.active (some d.wanted)
  passive : w.passive.Goes d.far d.callee stage.passive (stage.peer d)
  key : w.passive.connection.key = some d.farKey
  agreed : stage ≠ .dialing → d.wanted = d.callee
  toActive : w.passive.Sends w.active (stage.toActive d)
  toPassive : w.active.Sends w.passive (stage.toPassive d)
  reported : greetings w.log = stage.greetings d w.active.connection.key

/-- The active end got another process than it wants, and has failed. It has written nothing. -/
structure Refused (d : Dial) (w : Encounter) : Prop where
  other : d.wanted ≠ d.callee
  outcome : w.active.outcome = .error (.handshakeMismatch (some d.wanted) d.callee)
  output : w.active.connection.output = []
  phase : w.passive.connection.phase = .accepting
  quiet : w.passive.outcome = .ok .alive → w.passive.connection.Quiet
  ahead : w.passive.connection.ahead = []
  reported : greetings w.log = []

inductive Reached (d : Dial) (w : Encounter) : Prop
  | underway (stage : Stage) (h : Underway d stage w)
  | refused (h : Refused d w)

variable {d : Dial} {stage : Stage} {w w' : Encounter} {role : Role} {x y : Party}
  {log : List (Role × TransportEvent)}

theorem greetings_append {events : List TransportEvent} :
    greetings (log ++ events.map (Prod.mk role)) =
      greetings log ++ (inbound events).map (Prod.mk role) := by
  rw [greetings, List.filter_append, List.filter_map]
  rfl

theorem greetings_quiet {events : List TransportEvent} (h : inbound events = []) :
    greetings (log ++ events.map (Prod.mk role)) = greetings log := by
  rw [greetings_append, h]
  exact List.append_nil _

theorem greetings_setSender {enabled : Bool} :
    greetings (log ++ (x.setSender enabled).2.map (Prod.mk role)) = greetings log :=
  greetings_quiet (Connection.inbound_setSender (c := x.connection))

theorem act_eq {f : Party → Party × List TransportEvent} (h : (w.party role).outcome = .ok .alive) :
    w.act role f = { w.put role (f (w.party role)).1 with
      log := w.log ++ (f (w.party role)).2.map (Prod.mk role) } := if_pos h

theorem act_failed {f : Party → Party × List TransportEvent}
    (h : (w.party role).outcome ≠ .ok .alive) : w.act role f = w := if_neg h

/-! ### Both ends go on -/

theorem Underway.alive (h : Underway d stage w) (role : Role) :
    (w.party role).outcome = .ok .alive := by
  cases role with
  | active => exact h.active.alive
  | passive => exact h.passive.alive

theorem Underway.quiet (h : Underway d stage w) (role : Role) :
    (w.party role).connection.Quiet := by
  cases role with
  | active => exact h.active.quiet
  | passive => exact h.passive.quiet

theorem Stage.greetings_congr {key key' : Option ConnectionKey}
    (h : stage ≠ .dialing → key' = key) : stage.greetings d key' = stage.greetings d key := by
  cases stage with
  | dialing => rfl
  | answered => rw [h nofun]
  | met => rw [h nofun]

theorem Stage.active_ne (h : stage ≠ .dialing) : stage.active ≠ .connecting := by
  cases stage with
  | dialing => exact (h rfl).elim
  | answered => nofun
  | met => nofun

theorem Stage.eq_dialing (h : stage.active ≠ .connected) : stage = .dialing := by
  cases stage with
  | dialing => rfl
  | answered => exact (h rfl).elim
  | met => exact (h rfl).elim

/-- An end has done something other than to meet its peer. -/
structure Stays (phase : Phase) (x y : Party) : Prop where
  connection : x.connection.Continues y.connection
  outcome : y.outcome = x.outcome
  said : phase ≠ .connected → y.said = x.said

theorem Stays.refl {phase : Phase} (h : x.connection.Quiet) : Stays phase x x :=
  ⟨(Connection.Keeps.refl h).toContinues, rfl, fun _ => rfl⟩

theorem Underway.stays (h : Underway d stage w) (hactive : Stays stage.active w.active w'.active)
    (hpassive : Stays stage.passive w.passive w'.passive)
    (htoActive : w'.passive.Sends w'.active (stage.toActive d))
    (htoPassive : w'.active.Sends w'.passive (stage.toPassive d))
    (hlog : greetings w'.log = greetings w.log) : Underway d stage w' where
  active := h.active.continues hactive.connection hactive.outcome hactive.said
  passive := h.passive.continues hpassive.connection hpassive.outcome hpassive.said
  key := (hpassive.connection.key (by rw [h.key]; rfl)).trans h.key
  agreed := h.agreed
  toActive := htoActive
  toPassive := htoPassive
  reported := by
    rw [hlog, h.reported]
    exact Stage.greetings_congr fun hstage =>
      (hactive.connection.key (h.active.dialed (Stage.active_ne hstage))).symm

/-- One of the ends goes on and writes nothing. -/
theorem Underway.keeps (h : Underway d stage w) (role : Role)
    (hkeeps : (w.party role).connection.Keeps x.connection)
    (houtcome : x.outcome = (w.party role).outcome) (hsaid : x.said = (w.party role).said)
    (hlog : greetings log = greetings w.log) : Underway d stage { w.put role x with log } := by
  cases role with
  | active =>
    exact h.stays ⟨hkeeps.toContinues, houtcome, fun _ => hsaid⟩ (.refl h.passive.quiet)
      (h.toActive.same rfl hkeeps.ahead rfl) (h.toPassive.same hkeeps.output rfl hsaid) hlog
  | passive =>
    exact h.stays (.refl h.active.quiet) ⟨hkeeps.toContinues, houtcome, fun _ => hsaid⟩
      (h.toActive.same hkeeps.output rfl hsaid) (h.toPassive.same rfl hkeeps.ahead rfl) hlog

theorem put_log : { w.put role x with log := w.log } = w.put role x := by
  cases role <;> rfl

/-- Sockets may change as long as they stay open and hold the same bytes. -/
theorem Underway.onSocket (h : Underway d stage w) (role : Role) {f : Socket → Socket}
    (hshut : ∀ s, (f s).shut = s.shut) (hdial : ∀ s, s.dial ≠ .failed → (f s).dial ≠ .failed)
    (hended : ∀ s, (f s).ended = s.ended) (hincoming : ∀ s, (f s).incoming = s.incoming)
    (houtgoing : ∀ s, (f s).outgoing = s.outgoing) : Underway d stage (w.onSocket role f) := by
  rw [Encounter.onSocket, ← put_log]
  exact h.keeps role ⟨Connection.continues_onSocket (h.quiet role) hshut hdial hended,
    Connection.output_onSocket houtgoing, Connection.ahead_onSocket hincoming⟩ rfl rfl rfl

theorem Underway.carry (h : Underway d stage w) (role : Role) (count : Nat) :
    Underway d stage (w.step (.carry role count)) := by
  have hstays (phase : Phase) {x : Party} (hx : x.connection.Quiet) {f : Socket → Socket}
      (hshut : ∀ s, (f s).shut = s.shut) (hdial : ∀ s, (f s).dial = s.dial)
      (hended : ∀ s, (f s).ended = s.ended) : Stays phase x (x.onSocket f) :=
    ⟨Connection.continues_onSocket hx hshut (fun s hs => (hdial s).symm ▸ hs) hended, rfl,
      fun _ => rfl⟩
  cases role with
  | active =>
    exact h.stays (hstays _ h.active.quiet (fun _ => rfl) (fun _ => rfl) fun _ => rfl)
      (hstays _ h.passive.quiet (fun _ => rfl) (fun _ => rfl) fun _ => rfl)
      (h.toActive.same (Connection.output_onSocket fun _ => rfl)
        (Connection.ahead_onSocket fun _ => rfl) rfl)
      (h.toPassive.carry h.passive.quiet.socket count) rfl
  | passive =>
    exact h.stays (hstays _ h.active.quiet (fun _ => rfl) (fun _ => rfl) fun _ => rfl)
      (hstays _ h.passive.quiet (fun _ => rfl) (fun _ => rfl) fun _ => rfl)
      (h.toActive.carry h.active.quiet.socket count)
      (h.toPassive.same (Connection.output_onSocket fun _ => rfl)
        (Connection.ahead_onSocket fun _ => rfl) rfl) rfl

theorem Underway.message (h : Underway d stage w) (role : Role) (payload : Bytes) :
    Underway d stage (w.step (.message role payload)) := by
  have hlog : greetings (w.log ++ ([] : List TransportEvent).map (Prod.mk role)) =
      greetings w.log := greetings_quiet rfl
  rw [step, act_eq (h.alive role), Party.setMessage]
  cases hset : (w.party role).connection.setMessage payload (w.party role).max with
  | error _ => exact h.keeps role (.refl (h.quiet role)) rfl rfl hlog
  | ok c =>
    obtain ⟨hcontinues, hphase, houtput, hahead⟩ :=
      Connection.continues_setMessage (h.quiet role) hset
    cases role with
    | active =>
      exact h.stays
        ⟨hcontinues, rfl, fun hne => (hne (h.active.phase.symm.trans hphase)).elim⟩
        (.refl h.passive.quiet) (h.toActive.same rfl hahead rfl) (h.toPassive.message houtput rfl)
        hlog
    | passive =>
      exact h.stays (.refl h.active.quiet)
        ⟨hcontinues, rfl, fun hne => (hne (h.passive.phase.symm.trans hphase)).elim⟩
        (h.toActive.message houtput rfl) (h.toPassive.same rfl hahead rfl) hlog

theorem Underway.sender (h : Underway d stage w) (role : Role) (enabled : Bool) :
    Underway d stage (w.step (.sender role enabled)) := by
  rw [step, act_eq (h.alive role)]
  exact h.keeps role (Connection.keeps_setSender (h.quiet role) enabled) rfl rfl
    greetings_setSender

/-! ### An end is attended to -/

theorem step_service {r : Serviced} (h : (w.party role).outcome = .ok .alive)
    (hr : (w.party role).connection.service (w.party role).max = r) :
    w.step (.service role) = { w.put role { w.party role with
        connection := r.connection, outcome := r.outcome } with
      log := w.log ++ r.events.map (Prod.mk role) } := by
  rw [step, act_eq h, Party.service, hr]

theorem Underway.attended (h : Underway d stage w) (role : Role) :
    (w.party role).connection.opened.Attended
      ((w.party role).connection.service (w.party role).max) := by
  have hopen : (w.party role).connection.isEnded = false := by
    cases role with
    | active => exact h.active.ended
    | passive => exact h.passive.ended
  refine Connection.attended_service (h.quiet role) fun hended => ?_
  rw [hopen] at hended
  cases hended

/-- The identity that the active end has before it. -/
theorem Underway.awaits (h : Underway d .dialing w) : w.passive.Sends
    { w.active with connection := w.active.connection.opened } (Handshake.encode d.callee) :=
  h.toActive.same rfl (Connection.keeps_opened h.active.quiet).ahead rfl

/-- The end that dialed meets the process it wants, and answers. -/
theorem Underway.answer {c c' : Connection} {rest : Bytes} (h : Underway d .dialing w)
    (hopened : w.active.connection.Keeps c) (hdialed : c.key.isSome = true)
    (hwanted : d.wanted = d.callee) (hmeets : c.Meets c' d.callee rest)
    (hrest : rest ++ w.passive.connection.output = w.passive.said.flatMap Frame.encode)
    (hlog : greetings log = [(.active, .connected d.near d.callee c.key)]) :
    Underway d .answered
      { w with active := { w.active with connection := c', outcome := .ok .alive }, log } where
  active := by
    rw [hwanted]
    exact h.active.meets hopened hdialed hmeets
  passive := h.passive
  key := h.key
  agreed _ := hwanted
  toActive := by
    rw [Party.Sends, hmeets.ahead]
    exact hrest
  toPassive := by
    have hsaid : w.active.said = [] := h.active.silent (by decide)
    obtain ⟨hahead, houtput⟩ := h.toPassive.nothing hsaid
    have hphase : c.phase = .connecting := hopened.phase.trans h.active.phase
    have hhere : c.here = d.caller := hopened.here.trans h.active.here
    rw [Party.Sends, hmeets.output, hopened.output, houtput, hahead, hsaid, if_pos hphase, hhere]
    exact (List.append_nil _).symm
  reported := by
    rw [hlog, hmeets.key]
    rfl

/-- The end that dialed reads the identity of the other, and it is the one it wants or it is not. -/
theorem Underway.service_active (hcallee : d.callee.Fits) (h : Underway d stage w) :
    Reached d (w.step (.service .active)) := by
  have hattended : w.active.connection.opened.Attended
      (w.active.connection.service w.active.max) := h.attended .active
  have hopened := Connection.keeps_opened h.active.quiet
  have hphase := hopened.phase.trans h.active.phase
  generalize hr : w.active.connection.service w.active.max = r at hattended
  rw [step_service (h.alive .active) hr]
  cases hattended with
  | goes keeps _ quiet _ =>
    exact .underway stage (h.keeps .active (hopened.trans keeps) h.active.alive.symm rfl
      (greetings_quiet quiet))
  | greeted phase dialed front greets meets _ tells =>
    obtain rfl : stage = .dialing := Stage.eq_dialing (hphase ▸ phase)
    obtain ⟨rfl, -, hrest⟩ := h.awaits.reads hcallee front
    obtain ⟨hremote, hgreeting⟩ := Connection.greeting_dialed hphase greets
    have hwanted : d.wanted = d.callee :=
      Option.some.inj ((hopened.remote.trans h.active.remote).symm.trans hremote)
    refine .underway .answered (h.answer hopened dialed hwanted meets hrest ?_)
    rw [greetings_append, h.reported, tells, hgreeting, hopened.id, h.active.id]
    rfl
  | refused phase dialed front other rests quiet =>
    obtain rfl : stage = .dialing := Stage.eq_dialing (by rw [← hphase, phase]; nofun)
    obtain ⟨rfl, -⟩ := h.awaits.reads hcallee front
    obtain ⟨hahead, houtput⟩ := h.toPassive.nothing (h.active.silent nofun)
    rw [hopened.remote, h.active.remote] at other ⊢
    refine .refused ⟨fun heq => other (congrArg some heq), rfl, ?_, h.passive.phase,
      fun _ => h.passive.quiet, hahead, ?_⟩
    · exact (rests.output.trans hopened.output).trans houtput
    · exact (greetings_quiet quiet).trans h.reported
  | garbled phase front =>
    obtain rfl : stage = .dialing := Stage.eq_dialing (hphase ▸ phase)
    exact (h.awaits.not_invalid hcallee front).elim
  | cut ended _ _ _ =>
    rw [hopened.ended, h.active.ended] at ended
    cases ended

/-- The end that was dialed meets whoever has answered it. -/
theorem Underway.meet {c c' : Connection} {rest : Bytes} (h : Underway d .answered w)
    (hopened : w.passive.connection.Keeps c) (hdialed : c.key.isSome = true)
    (hmeets : c.Meets c' d.caller rest)
    (hrest : rest ++ w.active.connection.output = w.active.said.flatMap Frame.encode)
    (hlog : greetings log = Stage.met.greetings d w.active.connection.key) :
    Underway d .met
      { w with passive := { w.passive with connection := c', outcome := .ok .alive }, log } where
  active := h.active
  passive := h.passive.meets hopened hdialed hmeets
  key := (hmeets.key.trans (hopened.key (h.passive.dialed nofun))).trans h.key
  agreed _ := h.agreed nofun
  toActive := by
    have hphase : c.phase = .accepting := hopened.phase.trans h.passive.phase
    refine h.toActive.same ?_ rfl rfl
    dsimp only
    rw [hmeets.output, hopened.output, hphase]
    exact List.append_nil _
  toPassive := by
    rw [Party.Sends, hmeets.ahead]
    exact hrest
  reported := hlog

/-- The end that was dialed reads the identity of the other once that has answered. -/
theorem Underway.service_passive (hcaller : d.caller.Fits) (h : Underway d stage w) :
    Reached d (w.step (.service .passive)) := by
  have hattended : w.passive.connection.opened.Attended
      (w.passive.connection.service w.passive.max) := h.attended .passive
  have hopened := Connection.keeps_opened h.passive.quiet
  have hphase := hopened.phase.trans h.passive.phase
  have hkey : w.passive.connection.opened.key = some d.farKey :=
    (hopened.key (by rw [h.key]; rfl)).trans h.key
  generalize hr : w.passive.connection.service w.passive.max = r at hattended
  rw [step_service (h.alive .passive) hr]
  let y : Party := { w.passive with connection := w.passive.connection.opened }
  have hsends : w.active.Sends y (stage.toPassive d) := h.toPassive.same rfl hopened.ahead rfl
  -- Before it has answered, the active end writes nothing.
  have hnone (hstage : stage = .dialing) :
      Handshake.front w.passive.connection.opened.ahead = .incomplete := by
    subst hstage
    rw [(hsends.nothing (h.active.silent nofun)).1]
    rfl
  cases hattended with
  | goes keeps _ quiet _ =>
    exact .underway stage (h.keeps .passive (hopened.trans keeps) h.passive.alive.symm rfl
      (greetings_quiet quiet))
  | greeted phase dialed front greets meets _ tells =>
    cases stage with
    | dialing =>
      rw [hnone rfl] at front
      cases front
    | met => exact (phase hphase).elim
    | answered =>
      obtain ⟨rfl, -, hrest⟩ := hsends.reads hcaller front
      refine .underway .met (h.meet hopened dialed meets hrest ?_)
      rw [greetings_append, h.reported, tells, Connection.greeting_accepted hphase greets, hkey,
        hopened.id, h.passive.id]
      rfl
  | refused phase _ _ _ _ _ =>
    rw [hphase] at phase
    cases stage <;> cases phase
  | garbled phase front =>
    cases stage with
    | dialing =>
      rw [hnone rfl] at front
      cases front
    | met => exact (phase hphase).elim
    | answered => exact (hsends.not_invalid hcaller front).elim
  | cut ended _ _ _ =>
    rw [hopened.ended, h.passive.ended] at ended
    cases ended

theorem Underway.step (hcaller : d.caller.Fits) (hcallee : d.callee.Fits)
    (h : Underway d stage w) (m : Move) : Reached d (w.step m) := by
  cases m with
  | service role =>
    cases role with
    | active => exact h.service_active hcallee
    | passive => exact h.service_passive hcaller
  | sender role enabled => exact .underway stage (h.sender role enabled)
  | message role payload => exact .underway stage (h.message role payload)
  | carry role count => exact .underway stage (h.carry role count)
  | room role room =>
    exact .underway stage (h.onSocket role (fun _ => rfl) (fun _ => id) (fun _ => rfl)
      (fun _ => rfl) fun _ => rfl)
  | dialed key =>
    exact .underway stage (h.onSocket .active (fun _ => rfl) (fun _ _ => nofun) (fun _ => rfl)
      (fun _ => rfl) fun _ => rfl)
  | hangUp role =>
    have halive : ¬ ((w.party role).outcome ≠ .ok .alive ∧
        (w.party role).connection.outgoing = []) := fun hgone => hgone.1 (h.alive role)
    rw [Encounter.step, if_neg halive]
    exact .underway stage h

/-! ### The active end has failed -/

theorem Refused.failed (h : Refused d w) : (w.party .active).outcome ≠ .ok .alive := by
  rw [party, h.outcome]
  nofun

theorem Refused.onSocket_active (h : Refused d w) {f : Socket → Socket}
    (houtgoing : ∀ s, (f s).outgoing = s.outgoing) : Refused d (w.onSocket .active f) :=
  ⟨h.other, h.outcome, (Connection.output_onSocket houtgoing).trans h.output, h.phase, h.quiet,
    h.ahead, h.reported⟩

theorem Refused.onSocket_passive (h : Refused d w) {f : Socket → Socket}
    (hshut : ∀ s, (f s).shut = s.shut) (hdial : ∀ s, (f s).dial = s.dial)
    (hincoming : ∀ s, (f s).incoming = s.incoming) : Refused d (w.onSocket .passive f) where
  other := h.other
  outcome := h.outcome
  output := h.output
  phase := Connection.phase_onSocket.trans h.phase
  quiet halive := Connection.quiet_onSocket (h.quiet halive) hshut fun s hs => (hdial s).symm ▸ hs
  ahead := (Connection.ahead_onSocket hincoming).trans h.ahead
  reported := h.reported

/-- The passive end has not met anybody. -/
theorem Refused.passive (h : Refused d w) (hphase : x.connection.phase = .accepting)
    (hquiet : x.outcome = .ok .alive → x.connection.Quiet) (hahead : x.connection.ahead = [])
    (hlog : greetings log = greetings w.log) : Refused d { w.put .passive x with log } :=
  ⟨h.other, h.outcome, h.output, hphase, hquiet, hahead, hlog.trans h.reported⟩

/-- The passive end goes on until it gets to know that the other is gone. -/
theorem Refused.service (h : Refused d w) : Refused d (w.step (.service .passive)) := by
  by_cases halive : (w.party .passive).outcome = .ok .alive
  swap
  · rw [Encounter.step, act_failed halive]
    exact h
  have hnone : Handshake.front ([] : Bytes) = .incomplete := rfl
  have hattended : w.passive.connection.opened.Attended
      (w.passive.connection.service w.passive.max) :=
    Connection.attended_service (h.quiet halive)
      fun _ => ⟨by rw [h.phase]; nofun, by rw [h.ahead, hnone]⟩
  have hopened := Connection.keeps_opened (h.quiet halive)
  have hphase := hopened.phase.trans h.phase
  have hahead := hopened.ahead.trans h.ahead
  generalize hr : w.passive.connection.service w.passive.max = r at hattended
  rw [step_service halive hr]
  cases hattended with
  | goes keeps _ quiet _ =>
    exact h.passive (keeps.phase.trans hphase) (fun _ => keeps.quiet) (keeps.ahead.trans hahead)
      (greetings_quiet quiet)
  | cut _ _ rests quiet =>
    exact h.passive (rests.phase.trans hphase) nofun (rests.ahead.trans hahead)
      (greetings_quiet quiet)
  | greeted _ _ front _ _ _ _ =>
    rw [hahead, hnone] at front
    cases front
  | refused phase _ _ _ _ _ =>
    rw [hphase] at phase
    cases phase
  | garbled _ front =>
    rw [hahead, hnone] at front
    cases front

theorem Refused.sender (h : Refused d w) (enabled : Bool) :
    Refused d (w.step (.sender .passive enabled)) := by
  by_cases halive : (w.party .passive).outcome = .ok .alive
  · have hkeeps := Connection.keeps_setSender (h.quiet halive) enabled
    rw [Encounter.step, act_eq halive]
    exact h.passive (hkeeps.phase.trans h.phase) (fun _ => hkeeps.quiet)
      (hkeeps.ahead.trans h.ahead) greetings_setSender
  · rw [Encounter.step, act_failed halive]
    exact h

theorem Refused.message (h : Refused d w) (payload : Bytes) :
    Refused d (w.step (.message .passive payload)) := by
  by_cases halive : (w.party .passive).outcome = .ok .alive
  · rw [Encounter.step, act_eq halive, Party.setMessage]
    cases hset : (w.party .passive).connection.setMessage payload (w.party .passive).max with
    | error _ =>
      exact h.passive h.phase h.quiet h.ahead (greetings_quiet rfl)
    | ok c =>
      exact nomatch h.phase.symm.trans
        (Connection.continues_setMessage (h.quiet halive) hset).2.1
  · rw [Encounter.step, act_failed halive]
    exact h

theorem Refused.carry (h : Refused d w) (role : Role) (count : Nat) :
    Refused d (w.step (.carry role count)) := by
  cases role with
  | active =>
    have hcarried := Connection.output_carried (c := w.active.connection) count
    rw [h.output, eq_comm, List.append_eq_nil_iff] at hcarried
    obtain ⟨htake, houtput⟩ := hcarried
    have hdropped : Refused d
        (w.onSocket .active fun s => { s with outgoing := s.outgoing.drop count }) :=
      ⟨h.other, h.outcome, houtput, h.phase, h.quiet, h.ahead, h.reported⟩
    refine hdropped.onSocket_passive (fun _ => rfl) (fun _ => rfl) fun s => ?_
    change s.incoming ++ w.active.connection.outgoing.take count = s.incoming
    rw [htake, List.append_nil]
  | passive =>
    refine Refused.onSocket_active (h.onSocket_passive ?_ ?_ ?_) ?_ <;> exact fun _ => rfl

theorem Refused.step (h : Refused d w) (m : Move) : Refused d (w.step m) := by
  have hactive (f : Party → Party × List TransportEvent) : Refused d (w.act .active f) :=
    (act_failed h.failed).symm ▸ h
  cases m with
  | service role =>
    cases role with
    | active => exact hactive Party.service
    | passive => exact h.service
  | sender role enabled =>
    cases role with
    | active => exact hactive (Party.setSender enabled)
    | passive => exact h.sender enabled
  | message role payload =>
    cases role with
    | active => exact hactive (Party.setMessage payload)
    | passive => exact h.message payload
  | carry role count => exact h.carry role count
  | room role room =>
    cases role with
    | active => exact h.onSocket_active fun _ => rfl
    | passive => exact h.onSocket_passive (fun _ => rfl) (fun _ => rfl) fun _ => rfl
  | dialed key => exact h.onSocket_active fun _ => rfl
  | hangUp role =>
    rw [Encounter.step]
    split
    · cases role with
      | active => exact h.onSocket_passive (fun _ => rfl) (fun _ => rfl) fun _ => rfl
      | passive =>
        exact h.onSocket_active fun _ => rfl
    · exact h

theorem underway_start (d : Dial) : Underway d .dialing (start d) where
  active := ⟨rfl, ⟨⟨_, rfl, rfl, nofun⟩, rfl, rfl, rfl, fun _ => rfl⟩, rfl,
    fun hne => (hne rfl).elim, fun _ => rfl, rfl, rfl, rfl, rfl⟩
  passive := ⟨rfl, ⟨⟨_, rfl, rfl, nofun⟩, rfl, rfl, rfl, fun _ => rfl⟩, rfl, fun _ => rfl,
    fun _ => rfl, rfl, rfl, rfl, rfl⟩
  key := rfl
  agreed hne := (hne rfl).elim
  toActive := (List.append_nil _).symm
  toPassive := rfl
  reported := rfl

theorem reached_run (hcaller : d.caller.Fits) (hcallee : d.callee.Fits) (moves : List Move) :
    Reached d ((start d).run moves) := by
  induction moves using List.reverseRecOn with
  | nil => exact .underway .dialing (underway_start d)
  | append_singleton moves m ih =>
    rw [run, List.foldl_append]
    cases ih with
    | underway stage h => exact h.step hcaller hcallee m
    | refused h => exact .refused (h.step m)

end Encounter

end Multicast
