import Multicast.Proofs.Net.Meeting

/-! What comes of introducing two ends to each other. The one that dialed says who it is only to the
process it wants, and the two come to know each other or neither does. -/
namespace Multicast

namespace Encounter

variable {d : Dial} {stage : Stage} {w : Encounter} {role : Role}

/-- What has come of a dial that reached another process than the wanted one. -/
structure Refuses (d : Dial) (w : Encounter) : Prop where
  /-- The active end has written nothing. -/
  output : w.active.connection.output = []
  ahead : w.passive.connection.ahead = []
  outcome : w.active.outcome = .ok .alive ∨
    w.active.outcome = .error (.handshakeMismatch (some d.wanted) d.callee)
  /-- Until it fails, the identity of the other is all that it gets. -/
  identity : w.active.outcome = .ok .alive →
    w.active.connection.ahead ++ w.passive.connection.output = Handshake.encode d.callee
  /-- It fails as soon as all of the identity is there. -/
  fails : w.active.outcome = .ok .alive → (w.step (.service .active)).active.outcome =
    if w.active.connection.opened.isDialed ∧
        Handshake.encode d.callee <+: w.active.connection.ahead then
      .error (.handshakeMismatch (some d.wanted) d.callee)
    else .ok .alive

/-- All bytes have been carried, and an end that does not know its peer has read what came in. -/
structure Settled (w : Encounter) : Prop where
  active : w.active.connection.output = []
  passive : w.passive.connection.output = []
  read : ∀ role, (w.party role).connection.phase ≠ .connected →
    (w.party role).connection.incoming = []

/-- What has come of a dial that reached the wanted process. -/
structure Agrees (d : Dial) (w : Encounter) : Prop where
  alive : ∀ role, (w.party role).outcome = .ok .alive
  /-- All bytes can get across. -/
  completes : ∃ moves, (w.run moves).Settled
  active : w.Settled → w.active.Knows d.callee w.passive.said
  passive : w.Settled → w.passive.Knows d.caller w.active.said
  reported : w.Settled → greetings w.log =
    [(.active, .connected d.near d.callee w.active.connection.key),
      (.passive, .accepted d.far d.caller d.farKey)]

theorem Stage.mem_greetings {key : Option ConnectionKey} {c : ConnectionId} {peer : Proc}
    {k : ConnectionKey} (h : (.passive, .accepted c peer k) ∈ stage.greetings d key) :
    stage = .met ∧ peer = d.caller := by
  cases stage <;> simp_all [Stage.greetings]

/-- The passive end accepts nobody but the end that dialed, which then has met it before. -/
theorem Reached.accepted (h : Reached d w) {before after : List (Role × TransportEvent)}
    {c : ConnectionId} {peer : Proc} {key : ConnectionKey}
    (hlog : w.log = before ++ (.passive, .accepted c peer key) :: after) :
    peer = d.caller ∧ d.wanted = d.callee ∧
      ∃ c' key', (.active, .connected c' d.callee key') ∈ before := by
  have hsplit : greetings w.log =
      greetings before ++ (.passive, .accepted c peer key) :: greetings after := by
    rw [hlog, greetings, List.filter_append]
    rfl
  cases h with
  | refused h =>
    rw [h.reported] at hsplit
    cases (List.append_eq_nil_iff.mp hsplit.symm).2
  | underway stage h =>
    rw [h.reported] at hsplit
    obtain ⟨rfl, hpeer⟩ := Stage.mem_greetings
      (hsplit ▸ List.mem_append_right _ List.mem_cons_self)
    refine ⟨hpeer, h.agreed (by decide), d.near, w.active.connection.key, ?_⟩
    cases hbefore : greetings before with
    | nil =>
      rw [hbefore] at hsplit
      cases hsplit
    | cons first rest =>
      rw [hbefore] at hsplit
      obtain ⟨rfl, -⟩ := List.cons.inj hsplit
      have hmem : (.active, .connected d.near d.callee w.active.connection.key) ∈
          greetings before := by
        rw [hbefore]
        exact List.mem_cons_self
      exact (List.mem_filter.mp hmem).1

/-- The active end fails if and only if it has dialed and all of the identity is there. -/
theorem Underway.fails (hcallee : d.callee.Fits) (hother : d.wanted ≠ d.callee)
    (h : Underway d .dialing w) : (w.step (.service .active)).active.outcome =
      if w.active.connection.opened.isDialed ∧
          Handshake.encode d.callee <+: w.active.connection.ahead then
        .error (.handshakeMismatch (some d.wanted) d.callee)
      else .ok .alive := by
  have hattended : w.active.connection.opened.Attended
      (w.active.connection.service w.active.max) := h.attended .active
  have hopened := Connection.keeps_opened h.active.quiet
  have hphase := hopened.phase.trans h.active.phase
  have hremote := hopened.remote.trans h.active.remote
  have hdialed : w.active.connection.opened.isDialed =
      w.active.connection.opened.key.isSome := by
    rw [Connection.isDialed, hopened.quiet.socket, Bool.false_or]
  have hahead : w.active.connection.opened.ahead = w.active.connection.ahead := hopened.ahead
  rw [hdialed, ← hahead]
  generalize hr : w.active.connection.service w.active.max = r at hattended
  rw [step_service (h.alive .active) hr]
  cases hattended with
  | goes _ _ _ waits =>
    refine (if_neg fun hall => ?_).symm
    rcases waits with hconnected | hkey | hnone
    · cases hphase.symm.trans hconnected
    · rw [hkey] at hall
      cases hall.1
    · rcases h.awaits.front hcallee with ⟨-, hpart⟩ | ⟨left, hidentity, -⟩
      · exact hpart hall.2
      · cases hnone.symm.trans hidentity
  | greeted phase dialed front greets meets _ tells =>
    obtain ⟨rfl, -⟩ := h.awaits.reads hcallee front
    obtain ⟨hpeer, -⟩ := Connection.greeting_dialed hphase greets
    exact (hother (Option.some.inj (hremote.symm.trans hpeer))).elim
  | refused _ dialed front _ _ _ =>
    obtain ⟨rfl, hall, -⟩ := h.awaits.reads hcallee front
    rw [if_pos ⟨dialed, hall⟩, ← hremote]
    rfl
  | garbled _ front => exact (h.awaits.not_invalid hcallee front).elim
  | cut ended _ _ _ =>
    rw [hopened.ended, h.active.ended] at ended
    cases ended

theorem Underway.refuses (hcallee : d.callee.Fits) (hother : d.wanted ≠ d.callee)
    (h : Underway d stage w) : Refuses d w := by
  obtain rfl : stage = .dialing := Decidable.byContradiction fun hstage => hother (h.agreed hstage)
  have hsaid : w.passive.said = [] := h.passive.silent nofun
  obtain ⟨hahead, houtput⟩ := h.toPassive.nothing (h.active.silent nofun)
  refine ⟨houtput, hahead, .inl h.active.alive, fun _ => ?_, fun _ => h.fails hcallee hother⟩
  have hsends := h.toActive
  rw [Party.Sends, hsaid] at hsends
  exact hsends.trans (List.append_nil _)

theorem Underway.settled (hcaller : d.caller.Fits) (hcallee : d.callee.Fits)
    (h : Underway d stage w) (hsettled : w.Settled) : stage = .met := by
  cases stage with
  | dialing =>
    exact nomatch h.active.phase.symm.trans
      (h.toActive.connected hcallee hsettled.passive h.active.quiet (hsettled.read .active))
  | answered =>
    exact nomatch h.passive.phase.symm.trans
      (h.toPassive.connected hcaller hsettled.active h.passive.quiet (hsettled.read .passive))
  | met => rfl

/-! ### The bytes get across -/

/-- An end has nothing left to write, and has read what it waits for. The other has done nothing. -/
structure Drains (d : Dial) (role : Role) (w w' : Encounter) : Prop where
  underway : ∃ stage, Underway d stage w'
  output : (w'.party role).connection.output = []
  read : (w'.party role).connection.phase ≠ .connected →
    (w'.party role).connection.incoming = []
  phase : (w'.party role.other).connection.phase = (w.party role.other).connection.phase
  other : (w'.party role.other).connection.output = (w.party role.other).connection.output

theorem party_service {r : Serviced} (h : (w.party role).outcome = .ok .alive)
    (hr : (w.party role).connection.service (w.party role).max = r) :
    (w.step (.service role)).party role =
        { w.party role with connection := r.connection, outcome := r.outcome } ∧
      (w.step (.service role)).party role.other = w.party role.other := by
  rw [step_service h hr]
  cases role <;> exact ⟨rfl, rfl⟩

theorem party_carry (w : Encounter) (role : Role) (count : Nat) :
    (w.step (.carry role count)).party role =
        (w.party role).onSocket (fun s => { s with outgoing := s.outgoing.drop count }) ∧
      (w.step (.carry role count)).party role.other = (w.party role.other).onSocket fun s =>
        { s with incoming := s.incoming ++ (w.party role).connection.outgoing.take count } := by
  cases role <;> exact ⟨rfl, rfl⟩

/-- An end that can write is attended to, and all that it has written is carried away. -/
theorem Underway.writes (hcaller : d.caller.Fits) (hcallee : d.callee.Fits)
    (hwanted : d.wanted = d.callee) (h : Underway d stage w) (role : Role)
    (hfree : (w.party role).connection.opened.Free) : ∃ moves, Drains d role w (w.run moves) := by
  let w₁ := w.step (.service role)
  let count := (w₁.party role).connection.outgoing.length
  obtain ⟨hself, hother⟩ := party_service (h.alive role) rfl
  obtain ⟨hself', hother'⟩ := party_carry w₁ role count
  obtain ⟨stage₁, h₁⟩ : ∃ stage₁, Underway d stage₁ w₁ := by
    cases h.step hcaller hcallee (.service role) with
    | underway stage₁ h₁ => exact ⟨stage₁, h₁⟩
    | refused h₁ => exact (h₁.other hwanted).elim
  have hexhausts : (w.party role).connection.opened.Exhausts (w₁.party role).connection := by
    have halive := h₁.alive role
    rw [hself] at halive ⊢
    exact (h.attended role).exhausts halive
  have houtput : (w₁.party role).connection.output = (w₁.party role).connection.outgoing := by
    rw [Connection.output_eq (h₁.quiet role).socket, hexhausts.written hfree, List.append_nil]
  have hcarried := Connection.output_carried (c := (w₁.party role).connection) count
  rw [houtput, List.take_length, List.self_eq_append_right] at hcarried
  refine ⟨[.service role, .carry role count], ?_⟩
  change Drains d role w (w₁.step (.carry role count))
  refine ⟨⟨stage₁, h₁.carry role count⟩, ?_, fun hne => ?_, ?_, ?_⟩
  · rw [hself']
    exact hcarried
  · rw [hself'] at hne ⊢
    have hread := hexhausts.read hfree.dialed (Connection.phase_onSocket ▸ hne)
    rw [← hread]
    exact Connection.incoming_onSocket fun _ => rfl
  · rw [hother', ← hother]
    exact Connection.phase_onSocket
  · rw [hother', ← hother]
    exact Connection.output_onSocket fun _ => rfl

/-- An end whose dial is over gets room to write. -/
theorem Underway.drain (hcaller : d.caller.Fits) (hcallee : d.callee.Fits)
    (hwanted : d.wanted = d.callee) (h : Underway d stage w) (role : Role) {s : Socket}
    (hlink : (w.party role).connection.link = .socket s)
    (hdial : (w.party role).connection.key.isSome = true ∨ ∃ key, s.dial = .done key) :
    ∃ moves, Drains d role w (w.run moves) := by
  have hself : (w.step (.room role none)).party role =
      (w.party role).onSocket ({ · with room := none }) := by
    cases role <;> rfl
  have hother : (w.step (.room role none)).party role.other = w.party role.other := by
    cases role <;> rfl
  have hroom : Underway d stage (w.step (.room role none)) :=
    h.onSocket role (fun _ => rfl) (fun _ => id) (fun _ => rfl) (fun _ => rfl) fun _ => rfl
  have hconn : ((w.step (.room role none)).party role).connection =
      { (w.party role).connection with link := .socket { s with room := none } } := by
    simp only [hself, Party.onSocket, Connection.onSocket, hlink]
  have hfree : ((w.step (.room role none)).party role).connection.opened.Free := by
    refine Connection.free_opened (hroom.quiet role) (by rw [hconn]) rfl ?_
    rw [hconn]
    exact hdial
  obtain ⟨moves, hmoves⟩ := hroom.writes hcaller hcallee hwanted role hfree
  refine ⟨.room role none :: moves, hmoves.underway, hmoves.output, hmoves.read, ?_, ?_⟩
  · rw [← hother]
    exact hmoves.phase
  · rw [← hother]
    exact hmoves.other

/-- The passive end writes its identity, the active end answers, and the answer is read. -/
theorem Underway.completes (hcaller : d.caller.Fits) (hcallee : d.callee.Fits)
    (hwanted : d.wanted = d.callee) (h : Underway d stage w) : ∃ moves, (w.run moves).Settled := by
  have hkey {stage : Stage} {w : Encounter} (h : Underway d stage w) :
      w.passive.connection.key.isSome = true := by
    rw [h.key]
    rfl
  obtain ⟨s₁, hlink₁, -⟩ := h.passive.quiet.link
  obtain ⟨first, hfirst⟩ := h.drain hcaller hcallee hwanted .passive hlink₁ (.inl (hkey h))
  obtain ⟨stage₁, h₁⟩ := hfirst.underway
  let w₁ := w.run first
  let w₂ := w₁.step (.dialed d.farKey.reversed)
  have h₂ : Underway d stage₁ w₂ :=
    h₁.onSocket .active (fun _ => rfl) (fun _ _ => nofun) (fun _ => rfl) (fun _ => rfl)
      fun _ => rfl
  obtain ⟨s₂, hlink₂, -⟩ := h₁.active.quiet.link
  have hdialed : w₂.active.connection.link =
      .socket { s₂ with dial := .done d.farKey.reversed } := Connection.link_onSocket hlink₂
  obtain ⟨second, hsecond⟩ :=
    h₂.drain hcaller hcallee hwanted .active hdialed (.inr ⟨_, rfl⟩)
  obtain ⟨stage₃, h₃⟩ := hsecond.underway
  let w₃ := w₂.run second
  -- All of the identity was there when the active end was attended to.
  have hconnected : w₃.active.connection.phase = .connected := by
    cases stage₃ with
    | dialing =>
      exact h₃.toActive.connected hcallee (hsecond.other.trans hfirst.output) h₃.active.quiet
        hsecond.read
    | answered => exact h₃.active.phase
    | met => exact h₃.active.phase
  obtain ⟨s₃, hlink₃, -⟩ := h₃.passive.quiet.link
  obtain ⟨third, hthird⟩ := h₃.drain hcaller hcallee hwanted .passive hlink₃ (.inl (hkey h₃))
  refine ⟨first ++ .dialed d.farKey.reversed :: (second ++ third), ?_⟩
  have hrun : w.run (first ++ .dialed d.farKey.reversed :: (second ++ third)) = w₃.run third := by
    rw [run, List.foldl_append, List.foldl_cons, List.foldl_append]
    rfl
  rw [hrun]
  refine ⟨hthird.other.trans hsecond.output, hthird.output, fun role hne => ?_⟩
  cases role with
  | active => exact (hne (hthird.phase.trans hconnected)).elim
  | passive => exact hthird.read hne

theorem Underway.agrees (hcaller : d.caller.Fits) (hcallee : d.callee.Fits)
    (hwanted : d.wanted = d.callee) (h : Underway d stage w) : Agrees d w where
  alive := h.alive
  completes := h.completes hcaller hcallee hwanted
  active hsettled := by
    obtain rfl := h.settled hcaller hcallee hsettled
    exact h.toActive.knows hsettled.passive h.active.phase (hwanted ▸ h.active.remote)
  passive hsettled := by
    obtain rfl := h.settled hcaller hcallee hsettled
    exact h.toPassive.knows hsettled.active h.passive.phase h.passive.remote
  reported hsettled := by
    obtain rfl := h.settled hcaller hcallee hsettled
    exact h.reported

/-- An end that has dialed says who it is only to the process it wants, and both ends come to know
each other, or it fails and neither does. -/
theorem meet_or_refuse (d : Dial) (hcaller : d.caller.Fits) (hcallee : d.callee.Fits)
    (moves : List Move) :
    let w := (start d).run moves
    (∀ before after c peer key, w.log = before ++ (.passive, .accepted c peer key) :: after →
      peer = d.caller ∧ d.wanted = d.callee ∧
        ∃ c' key', (.active, .connected c' d.callee key') ∈ before) ∧
    (d.wanted ≠ d.callee → Refuses d w) ∧ (d.wanted = d.callee → Agrees d w) := by
  intro w
  have hreached : Reached d w := reached_run hcaller hcallee moves
  refine ⟨fun before after c peer key hlog => hreached.accepted hlog, fun hother => ?_,
    fun hwanted => ?_⟩
  · cases hreached with
    | underway stage h => exact h.refuses hcallee hother
    | refused h =>
      exact ⟨h.output, h.ahead, .inr h.outcome, fun halive => (h.failed halive).elim,
        fun halive => (h.failed halive).elim⟩
  · cases hreached with
    | underway stage h => exact h.agrees hcaller hcallee hwanted
    | refused h => exact (h.other hwanted).elim

def small : Dial where
  caller := ⟨"a", 7000, 1⟩
  wanted := ⟨"b", 7001, 2⟩
  callee := ⟨"b", 7001, 2⟩
  near := 3
  nearMax := 8
  far := 5
  farMax := 8
  farKey := ⟨.v4 [10, 0, 0, 2] 7001, .v4 [10, 0, 0, 1] 50001⟩

/-- Bytes get across a few at a time, and a message is on its way behind the second identity. -/
def slowly (key : ConnectionKey) (message : Bytes) : List Move :=
  [.dialed key, .room .passive (some 4), .service .passive, .carry .passive 3, .service .active,
    .room .passive none, .service .passive, .carry .passive 2, .service .active,
    .carry .passive 50, .service .active, .message .active message, .service .active,
    .carry .active 7, .service .passive, .carry .active 50, .service .passive]

theorem meet_slowly :
    let w := (start small).run (slowly small.farKey.reversed [1, 2])
    small.caller.Fits ∧ small.callee.Fits ∧ w.Settled ∧
      w.active.Knows small.callee [] ∧ w.passive.Knows small.caller [[1, 2]] := by
  intro w
  have hcaller : small.caller.Fits := by decide +kernel
  have hcallee : small.callee.Fits := by decide +kernel
  have hsettled : w.Settled :=
    ⟨by decide +kernel, by decide +kernel, fun role => by cases role <;> decide +kernel⟩
  have hagrees : Agrees small w := (meet_or_refuse small hcaller hcallee _).2.2 rfl
  have hsaid : w.passive.said = [] ∧ w.active.said = [[1, 2]] := by decide +kernel
  exact ⟨hcaller, hcallee, hsettled, hsaid.1 ▸ hagrees.active hsettled,
    hsaid.2 ▸ hagrees.passive hsettled⟩

end Encounter

end Multicast
