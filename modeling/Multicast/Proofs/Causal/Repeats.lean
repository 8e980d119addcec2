import Multicast.Proofs.Causal.Sends

/-! When a causal layer delivers a message more than once. It forgets what it has delivered of a
member that departs, so that a packet of this member is taken for new when it comes again after the
return; and it delivers a message that it starts even if a packet has brought it before. -/
namespace Multicast.CausalLayer
open CausalEvent (deliveries outputs)

variable {l l' m : CausalLayer} {c : CausalCall} {i : MessageId} {p : Proc} {r : CausalRequest}
  {es fs : List CausalEvent} {calls : List CausalCall} {o : CausalOutput}

/-- The call brings a list from which `p` has departed. -/
def Drops (l : CausalLayer) (c : CausalCall) (p : Proc) : Prop :=
  ∃ members, c = .view members ∧ l.initialized = true ∧ members.Nodup ∧ p ∈ l.members ∧ p ∉ members

/-- The message was delivered in the calls, and its sender has departed since. -/
def Lapsed (l : CausalLayer) (calls : List CausalCall) (i : MessageId) : Prop :=
  ∃ before c after, calls = before ++ c :: after ∧ (l.run before).Drops c i.sender ∧
    deliveries i (l.history before) ≠ [] ∧ deliveries i ((l.run before).history (c :: after)) = []

/-- After some calls, a packet brings a message whose sender has departed since it was
delivered. -/
def Recurs (l : CausalLayer) (calls : List CausalCall) (c : CausalCall) : Prop :=
  ∃ source i destinations payload, c = .deliver source (.send i destinations payload) ∧
    (l.run calls).Hears source ∧ l.Lapsed calls i

/-- After some calls, the local process starts a message to itself that was delivered before: a
packet has brought one under the number that comes next. -/
def Anticipated (l : CausalLayer) (calls : List CausalCall) (c : CausalCall) : Prop :=
  ∃ i r, .started i r ∈ (l.run calls).events c ∧ l.here ∈ r.destinations ∧
    deliveries i (l.history calls) ≠ []

/-! ### What happens in a call -/

theorem deliveries_ne_nil : deliveries i es ≠ [] ↔ ∃ e ∈ es, e.Delivers i := by
  rw [ne_eq, CausalEvent.deliveries_eq_nil]
  push Not
  rfl

theorem deliveries_append_ne_nil : deliveries i (es ++ fs) ≠ [] ↔
    deliveries i es ≠ [] ∨ deliveries i fs ≠ [] := by
  rw [CausalEvent.deliveries_append, ne_eq, List.append_eq_nil_iff, not_and_or]

/-- A step delivers a message that a packet brings for the first time, or that it starts. -/
theorem step_delivers {c : Option CausalCall} (h : l.Step c es m) (hi : deliveries i es ≠ []) :
    (∃ source destinations payload d, c = some (.deliver source (.send i destinations payload)) ∧
      l.Hears source ∧ l.delivered.insert? i = some d) ∨
    ∃ r, .started i r ∈ es ∧ l.here ∈ r.destinations := by
  cases h with
  | drain | start =>
    rw [deliveries_startEvents] at hi
    split at hi
    · rename_i hnext
      exact Or.inr ⟨_, mem_startEvents.mpr (Or.inl (hnext.2 ▸ rfl)), hnext.1⟩
    · exact (hi rfl).elim
  | @deliver source id destinations payload d hears fresh =>
    obtain ⟨e, he, hd⟩ := deliveries_ne_nil.mp hi
    rw [List.mem_singleton] at he
    subst he
    obtain rfl : id = i := hd
    exact Or.inl ⟨source, destinations, payload, d, rfl, hears, fresh⟩
  | init | enqueue | duplicate | ignore => exact (hi rfl).elim
  | view | release => exact (hi deliveries_completions).elim
  | early =>
    refine (hi ?_).elim
    simp [deliveries, List.filterMap_map]

/-- What the local process starts for itself is delivered at once. -/
theorem step_delivers_started {c : Option CausalCall} (h : l.Step c es m)
    (hr : .started i r ∈ es) (hh : l.here ∈ r.destinations) : deliveries i es ≠ [] := by
  obtain ⟨-, rfl, rfl, -⟩ := step_started h hr
  rw [deliveries_startEvents, if_pos ⟨hh, rfl⟩]
  exact List.cons_ne_nil _ _

/-- The messages of the queue take the numbers that come next. -/
theorem drains_delivers (h : Drains l es m) (hi : deliveries i es ≠ []) :
    l.nextSequence ≤ i.sequence ∧ ∃ r, .started i r ∈ es ∧ l.here ∈ r.destinations := by
  induction h with
  | done => exact (hi rfl).elim
  | @step l m n es fs hs _ ih =>
    rcases deliveries_append_ne_nil.mp hi with hi | hi
    · rcases step_delivers hs hi with ⟨_, _, _, _, hc, _⟩ | ⟨r, hr, hh⟩
      · cases hc
      · obtain ⟨-, rfl, -⟩ := step_started hs hr
        exact ⟨Nat.le_refl _, r, List.mem_append_left _ hr, hh⟩
    · obtain ⟨hle, r, hr, hh⟩ := ih hi
      exact ⟨Nat.le_trans (step_nextSequence hs) hle, r, List.mem_append_right _ hr,
        step_here hs ▸ hh⟩

theorem drains_delivers_started (h : Drains l es m) (hr : .started i r ∈ es)
    (hh : l.here ∈ r.destinations) : deliveries i es ≠ [] := by
  induction h with
  | done => cases hr
  | step hs _ ih =>
    rw [deliveries_append_ne_nil]
    rcases List.mem_append.mp hr with hr | hr
    · exact Or.inl (step_delivers_started hs hr hh)
    · exact Or.inr (ih hr (step_here hs ▸ hh))

theorem step_once {c : Option CausalCall} (h : l.Step c es m) : (deliveries i es).length ≤ 1 := by
  rcases step_deliveries (i := i) h with hes | ⟨payload, -, -, hes⟩
  · rw [hes]
    exact Nat.zero_le _
  · rw [hes]
    exact Nat.le_refl _

/-- What a step starts is numbered before all that is started later. -/
theorem drains_of_started {c : Option CausalCall} (hs : l.Step c es m) (hr : .started i r ∈ es)
    (hd : Drains m fs l') : deliveries i fs = [] := by
  obtain ⟨-, rfl, -, hnext, -⟩ := step_started hs hr
  by_contra hne
  have hle := (drains_delivers hd hne).1
  rw [hnext] at hle
  exact Nat.not_succ_le_self _ hle

theorem drains_once (h : Drains l es m) : (deliveries i es).length ≤ 1 := by
  induction h with
  | done => exact Nat.zero_le _
  | @step l m n es fs hs hd ih =>
    rw [CausalEvent.deliveries_append, List.length_append]
    by_cases hes : deliveries i es = []
    · rwa [hes, List.length_nil, Nat.zero_add]
    · rcases step_delivers hs hes with ⟨_, _, _, _, hc, _⟩ | ⟨r, hr, -⟩
      · cases hc
      · rw [drains_of_started hs hr hd]
        exact step_once hs

theorem call_of_hears {source : Proc} (h : l.Hears source) (packet : CausalPacket) :
    ∃ result, l.call (.deliver source packet) = .ok result := by
  simp only [call, CausalLayer.deliver, h.ready, h.member]
  cases packet <;> exact ⟨_, rfl⟩

/-- A packet starts nothing, and makes the layer deliver the message unless it remembers it. -/
theorem events_of_send {source : Proc} {destinations : List Proc} {payload : Bytes}
    (h : l.Hears source) : l.events (.deliver source (.send i destinations payload)) =
      if l.delivered.insert? i = none then []
      else [.delivered i payload (l.informed source i destinations) l.members] := by
  obtain ⟨result, hcall⟩ := call_of_hears h (.send i destinations payload)
  simp only [events, hcall, eventsOf, packetEvents]

/-- A call delivers a message that its packet brings and that the layer does not remember, or that
it starts for the local process. -/
theorem delivers_iff (hl : l.delivered.Valid) : deliveries i (l.events c) ≠ [] ↔
    (∃ source destinations payload, c = .deliver source (.send i destinations payload) ∧
      l.Hears source ∧ l.delivered.contains i = false) ∨
    ∃ r, .started i r ∈ l.events c ∧ l.here ∈ r.destinations := by
  constructor
  · intro hi
    cases h : l.call c with
    | error e => exact (hi (by rw [(unchanged_of_error h).2]; rfl)).elim
    | ok result =>
      obtain ⟨es, m, fs, hs, hd, he, -⟩ := call_ok h
      rw [he] at hi ⊢
      rcases deliveries_append_ne_nil.mp hi with hi | hi
      · rcases step_delivers hs hi with ⟨source, destinations, payload, d, hc, hears, hd⟩ | hr
        · refine Or.inl ⟨source, destinations, payload, Option.some.inj hc, hears, ?_⟩
          rw [Bool.eq_false_iff, ne_eq, ← Delivered.insert?_eq_none hl, hd]
          exact Option.some_ne_none d
        · obtain ⟨r, hr, hh⟩ := hr
          exact Or.inr ⟨r, List.mem_append_left _ hr, hh⟩
      · obtain ⟨-, r, hr, hh⟩ := drains_delivers hd hi
        exact Or.inr ⟨r, List.mem_append_right _ hr, step_here hs ▸ hh⟩
  · rintro (⟨source, destinations, payload, rfl, hears, hnew⟩ | ⟨r, hr, hh⟩)
    · rw [events_of_send hears, if_neg]
      · simp [deliveries]
      · rw [Delivered.insert?_eq_none hl, hnew]
        exact Bool.false_ne_true
    · cases h : l.call c with
      | error e =>
        rw [(unchanged_of_error h).2] at hr
        cases hr
      | ok result =>
        obtain ⟨es, m, fs, hs, hd, he, -⟩ := call_ok h
        rw [he] at hr ⊢
        rw [deliveries_append_ne_nil]
        rcases List.mem_append.mp hr with hr | hr
        · exact Or.inl (step_delivers_started hs hr hh)
        · exact Or.inr (drains_delivers_started hd hr (step_here hs ▸ hh))

/-- A call delivers a message at most once. -/
theorem events_once : (deliveries i (l.events c)).length ≤ 1 := by
  cases h : l.call c with
  | error e =>
    rw [(unchanged_of_error h).2]
    exact Nat.zero_le _
  | ok result =>
    obtain ⟨es, m, fs, hs, hd, he, -⟩ := call_ok h
    rw [he, CausalEvent.deliveries_append]
    by_cases hes : deliveries i es = []
    · rw [hes, List.nil_append]
      exact drains_once hd
    · rcases step_delivers hs hes with ⟨_, _, _, _, hc, hears, hnew⟩ | ⟨r, hr, -⟩
      · obtain rfl := Option.some.inj hc
        rw [← CausalEvent.deliveries_append, ← he, events_of_send hears, if_neg (by simp [hnew])]
        simp [deliveries]
      · rw [drains_of_started hs hr hd, List.append_nil]
        exact step_once hs

/-! ### What a layer remembers -/

theorem drains_contains (h : Drains l es m) (hl : l.delivered.Valid) : m.delivered.Valid ∧
    (m.delivered.contains i = true ↔ l.delivered.contains i = true ∨ deliveries i es ≠ []) := by
  induction h with
  | done => exact ⟨hl, by simp [deliveries]⟩
  | @step l m n es fs hs _ ih =>
    obtain ⟨hvalid, hcontains⟩ := ih (step_valid hs hl)
    refine ⟨hvalid, ?_⟩
    rw [hcontains, step_contains hs hl, deliveries_append_ne_nil, ← deliveries_ne_nil]
    simp [or_assoc]

/-- After a call the layer remembers what it delivers in it, and what it remembered before unless
the sender departs. -/
theorem contains_after (hl : l.delivered.Valid) : (l.after c).delivered.Valid ∧
    ((l.after c).delivered.contains i = true ↔
      (l.delivered.contains i = true ∧ ¬ l.Drops c i.sender) ∨
        deliveries i (l.events c) ≠ []) := by
  cases h : l.call c with
  | error e =>
    have hstays : ¬ l.Drops c i.sender := by
      rintro ⟨members, rfl, hready, hnodup, -⟩
      simp [call, applyView, hready, Proc.firstRepeated?_eq_none.mpr hnodup, Except.mapError] at h
    rw [(unchanged_of_error h).1, (unchanged_of_error h).2]
    exact ⟨hl, by simp [hstays, deliveries]⟩
  | ok result =>
    obtain ⟨es, m, fs, hs, hd, he, -⟩ := call_ok h
    obtain ⟨hvalid, hcontains⟩ := drains_contains (i := i) hd (step_valid hs hl)
    have hdrops : (∃ ms, some c = some (.view ms) ∧ l.initialized = true ∧ i.sender ∈ l.members ∧
        i.sender ∉ ms) ↔ l.Drops c i.sender := by
      constructor
      · rintro ⟨ms, hc, hready, hin, hout⟩
        obtain rfl := Option.some.inj hc
        refine ⟨ms, rfl, hready, ?_, hin, hout⟩
        cases hs with
        | init call fresh nodup => exact absurd (fresh.symm.trans hready) (by decide)
        | view ready nodup => exact nodup
      · rintro ⟨ms, rfl, hready, -, hin, hout⟩
        exact ⟨ms, rfl, hready, hin, hout⟩
    rw [after_of_ok h, he]
    refine ⟨hvalid, ?_⟩
    rw [hcontains, step_contains hs hl, hdrops, deliveries_append_ne_nil, ← deliveries_ne_nil,
      or_assoc]

/-! ### Runs -/

/-- A message lapses when its sender departs in a call that does not deliver it again. -/
theorem lapsed_append_singleton : l.Lapsed (calls ++ [c]) i ↔
    deliveries i ((l.run calls).events c) = [] ∧
      (l.Lapsed calls i ∨
        deliveries i (l.history calls) ≠ [] ∧ (l.run calls).Drops c i.sender) := by
  constructor
  · rintro ⟨before, d, after, hcalls, hdrops, hheard, hnone⟩
    rcases List.eq_nil_or_concat after with rfl | ⟨after, e, rfl⟩
    · obtain ⟨rfl, hd⟩ := List.append_inj' hcalls rfl
      obtain rfl := List.cons_eq_cons.mp hd |>.1
      rw [history, history, List.append_nil] at hnone
      exact ⟨hnone, Or.inr ⟨hheard, hdrops⟩⟩
    · rw [List.concat_eq_append, ← List.cons_append, ← List.append_assoc] at hcalls
      obtain ⟨rfl, hc⟩ := List.append_inj' hcalls rfl
      obtain rfl := List.cons_eq_cons.mp hc |>.1
      rw [List.concat_eq_append, ← List.cons_append, history_append_singleton,
        CausalEvent.deliveries_append, List.append_eq_nil_iff] at hnone
      rw [run_append]
      exact ⟨hnone.2, Or.inl ⟨before, d, after, rfl, hdrops, hheard, hnone.1⟩⟩
  · rintro ⟨hnone, ⟨before, d, after, rfl, hdrops, hheard, hlost⟩ | ⟨hheard, hdrops⟩⟩
    · refine ⟨before, d, after ++ [c], by simp, hdrops, hheard, ?_⟩
      rw [← List.cons_append, history_append_singleton, CausalEvent.deliveries_append, hlost,
        ← run_append, hnone]
      rfl
    · refine ⟨calls, c, [], rfl, hdrops, hheard, ?_⟩
      rwa [history, history, List.append_nil]

/-- What a layer remembers is what it has delivered, but for what has lapsed. -/
theorem remembers_run {here : Proc} {window capacity : Nat}
    (hl : l = fresh here window capacity) (i : MessageId) : (l.run calls).delivered.Valid ∧
    ((l.run calls).delivered.contains i = true ↔
      deliveries i (l.history calls) ≠ [] ∧ ¬ l.Lapsed calls i) := by
  subst hl
  induction calls using List.reverseRecOn with
  | nil =>
    refine ⟨Delivered.valid_empty, ?_⟩
    simp [run, fresh, Delivered.contains, Delivered.runsOf, history, deliveries]
  | append_singleton calls c ih =>
    obtain ⟨hvalid, hcontains⟩ := ih
    obtain ⟨hvalid', hcontains'⟩ := contains_after (c := c) (i := i) hvalid
    rw [run_append_singleton]
    refine ⟨hvalid', ?_⟩
    rw [hcontains', hcontains, history_append_singleton, deliveries_append_ne_nil,
      lapsed_append_singleton]
    tauto

theorem Lapsed.delivered (h : l.Lapsed calls i) : deliveries i (l.history calls) ≠ [] := by
  obtain ⟨before, c, after, rfl, -, hheard, -⟩ := h
  rw [history_append, deliveries_append_ne_nil]
  exact Or.inl hheard

/-- After some calls, a call delivers a message again exactly if it recurs or is anticipated. -/
theorem again_iff {here : Proc} {window capacity : Nat} (hl : l = fresh here window capacity) :
    (∃ i, deliveries i (l.history calls) ≠ [] ∧ deliveries i ((l.run calls).events c) ≠ []) ↔
      l.Recurs calls c ∨ l.Anticipated calls c := by
  have hhere : (l.run calls).here = l.here := here_run
  constructor
  · rintro ⟨i, hbefore, hnow⟩
    obtain ⟨hvalid, hremembers⟩ := remembers_run hl i
    rcases (delivers_iff hvalid).mp hnow with ⟨source, ds, payload, rfl, hears, hnew⟩ | ⟨r, hr, hh⟩
    · left
      refine ⟨source, i, ds, payload, rfl, hears, ?_⟩
      by_contra hkept
      rw [hremembers.mpr ⟨hbefore, hkept⟩] at hnew
      cases hnew
    · right
      exact ⟨i, r, hr, hhere ▸ hh, hbefore⟩
  · rintro (⟨source, i, destinations, payload, rfl, hears, hlapsed⟩ | ⟨i, r, hr, hh, hbefore⟩)
    · obtain ⟨hvalid, hremembers⟩ := remembers_run hl i
      refine ⟨i, hlapsed.delivered, (delivers_iff hvalid).mpr (Or.inl ?_)⟩
      refine ⟨source, destinations, payload, rfl, hears, ?_⟩
      rw [Bool.eq_false_iff]
      exact fun hkept => (hremembers.mp hkept).2 hlapsed
    · have hvalid : (l.run calls).delivered.Valid := (remembers_run hl i).1
      exact ⟨i, hbefore, (delivers_iff hvalid).mpr (Or.inr ⟨r, hr, hhere ▸ hh⟩)⟩

/-- The events of a run put out what its calls put out. No message is delivered twice exactly if
none comes again after its sender has departed, and none has come under a number that the local
process gives to a message to itself later. -/
theorem delivered_once_iff (here : Proc) (window capacity : Nat) (calls : List CausalCall) :
    let l := fresh here window capacity
    outputs (l.history calls) = l.output calls ∧
      ((∀ i, (deliveries i (l.history calls)).length ≤ 1) ↔
        ∀ cs c, cs ++ [c] <+: calls → ¬ l.Recurs cs c ∧ ¬ l.Anticipated cs c) := by
  intro l
  refine ⟨outputs_history, ?_⟩
  induction calls using List.reverseRecOn with
  | nil =>
    refine iff_of_true (fun _ => Nat.zero_le _) fun cs c hc => ?_
    simp at hc
  | append_singleton calls c ih =>
    have hsplit : (∀ i, (deliveries i (l.history (calls ++ [c]))).length ≤ 1) ↔
        (∀ i, (deliveries i (l.history calls)).length ≤ 1) ∧
          ¬ ∃ i, deliveries i (l.history calls) ≠ [] ∧
            deliveries i ((l.run calls).events c) ≠ [] := by
      rw [not_exists, ← forall_and]
      refine forall_congr' fun i => ?_
      have honce : (deliveries i ((l.run calls).events c)).length ≤ 1 := events_once
      rw [history_append_singleton, CausalEvent.deliveries_append, List.length_append,
        ← List.length_pos_iff, ← List.length_pos_iff]
      omega
    -- One call delivers no message twice, so only an earlier delivery can make it two.
    rw [hsplit, ih, again_iff rfl, not_or]
    constructor
    · rintro ⟨hold, hlast⟩ cs d hd
      rcases List.prefix_concat_iff.mp hd with heq | hd
      · obtain ⟨rfl, hcd⟩ := List.append_inj' heq rfl
        obtain rfl : d = c := by simpa using hcd
        exact hlast
      · exact hold cs d hd
    · intro hall
      exact ⟨fun cs d hd => hall cs d (hd.trans (List.prefix_append _ _)),
        hall calls c (List.prefix_refl _)⟩

/-- A member departs and returns, and its message comes again. -/
theorem delivered_again : ¬ ∀ (here : Proc) (window capacity : Nat) (calls : List CausalCall) i,
    (deliveries i ((fresh here window capacity).history calls)).length ≤ 1 := by
  intro h
  let a : Proc := ⟨"a", 1, 0⟩
  let b : Proc := ⟨"b", 1, 0⟩
  let message : CausalCall := .deliver b (.send ⟨b, 0⟩ [a] [1])
  have honce := h a 2 2 [.init [a, b], message, .view [a], .view [a, b], message] ⟨b, 0⟩
  exact absurd honce (by decide)

end Multicast.CausalLayer
