import Multicast.Proofs.Causal.Steps

/-! What a step of a causal layer does to each part of it. -/
namespace Multicast.CausalLayer

variable {l m : CausalLayer} {c : Option CausalCall} {i j : MessageId} {p q : Proc}
  {r : CausalRequest} {es : List CausalEvent} {e : CausalEvent} {members informed : List Proc}
  {payload : Bytes} {o : CausalOutput}

theorem mem_startEvents : e ∈ l.startEvents r ↔ e = .started l.nextId r ∨
    (l.here ∈ r.destinations ∧
      e = .delivered l.nextId r.payload (l.audience r) l.members) ∨
    (l.audience r = [] ∧ e = .completed l.nextId) := by
  unfold startEvents
  by_cases h : l.here ∈ r.destinations <;> by_cases ha : l.audience r = [] <;>
    simp only [h, ha, if_true, if_false, List.mem_cons, List.append_nil, List.nil_append,
      List.cons_append, List.not_mem_nil] <;> tauto

theorem mem_completions : e ∈ completions o ↔ ∃ i ∈ o.completed, e = .completed i := by
  simp [completions, eq_comm]

theorem step_here (h : l.Step c es m) : m.here = l.here := by
  cases h with
  | drain | start => exact start_here
  | view => exact departAll_here
  | deliver => exact await_here
  | early => exact recordEarly_here
  | init | enqueue | duplicate | release | ignore => rfl

theorem step_initialized (h : l.Step c es m) (hl : l.initialized = true) :
    m.initialized = true := by
  cases h with
  | drain | start => simpa using hl
  | view ready => simpa [moveTo] using ready
  | deliver | early => simpa using hl
  | init | enqueue | duplicate | release | ignore => first | rfl | exact hl

theorem step_members (h : l.Step c es m) (hn : ∀ members, .moved members ∉ es) :
    m.members = l.members := by
  cases h with
  | drain | start => exact start_members
  | deliver => exact await_members
  | early => exact recordEarly_members
  | enqueue | duplicate | release | ignore => rfl
  | init | view => exact (hn _ List.mem_cons_self).elim

theorem step_moved (h : l.Step c es m) (he : .moved members ∈ es) :
    m.members = members ∧ (c = some (.init members) ∨ c = some (.view members)) ∧
      es.head? = some (.moved members) := by
  cases h with
  | drain | start => simp [mem_startEvents] at he
  | init call fresh nodup =>
    simp only [List.mem_singleton, CausalEvent.moved.injEq] at he
    subst he
    exact ⟨rfl, by simpa using call, rfl⟩
  | view ready nodup =>
    simp only [List.mem_cons, CausalEvent.moved.injEq, mem_completions, reduceCtorEq, and_false,
      exists_false, or_false] at he
    subst he
    exact ⟨departAll_members, Or.inr rfl, rfl⟩
  | deliver | enqueue | duplicate | ignore => simp at he
  | release => simp [mem_completions] at he
  | early => simp at he

/-- The list changes to the one that a call brings. -/
theorem step_list (h : l.Step c es m) :
    m.members = l.members ∨ c = some (.init m.members) ∨ c = some (.view m.members) := by
  by_cases hm : ∃ members, .moved members ∈ es
  · obtain ⟨members, hm⟩ := hm
    obtain ⟨rfl, hc, -⟩ := step_moved h hm
    exact Or.inr hc
  · exact Or.inl (step_members h fun members hmem => hm ⟨members, hmem⟩)

theorem step_view (h : l.Step (some (.view members)) es m) : m.members = members := by
  cases h with
  | init call => simpa [eq_comm] using call
  | view => exact departAll_members

theorem step_nextSequence (h : l.Step c es m) : l.nextSequence ≤ m.nextSequence := by
  cases h with
  | drain | start => simp
  | view => simp [moveTo]
  | deliver | early => simp
  | init | enqueue | duplicate | release | ignore => exact Nat.le_refl _

/-- A message is started only by a layer that awaits nobody. -/
theorem step_started (h : l.Step c es m) (he : .started i r ∈ es) :
    l.pending = [] ∧ i = l.nextId ∧ es = l.startEvents r ∧
      m.nextSequence = l.nextSequence + 1 ∧
      (∀ j p, m.Awaits j p ↔ j = i ∧ p ∈ l.audience r) ∧
      (r ∈ l.queue ∨ ∀ p ∈ r.destinations, p ∈ l.members) := by
  cases h with
  | @drain r' q idle queued =>
    simp only [mem_startEvents, CausalEvent.started.injEq, reduceCtorEq, and_false, or_false] at he
    obtain ⟨rfl, rfl⟩ := he
    exact ⟨idle, rfl, rfl, start_nextSequence, fun j p => awaits_start idle,
      Or.inl (by simp [queued])⟩
  | start accepts idle =>
    simp only [mem_startEvents, CausalEvent.started.injEq, reduceCtorEq, and_false, or_false] at he
    obtain ⟨rfl, rfl⟩ := he
    exact ⟨idle, rfl, rfl, start_nextSequence, fun j p => awaits_start idle,
      Or.inr fun p hp => accepts.members p (Proc.mem_firsts.mp hp)⟩
  | init | deliver | enqueue | duplicate | ignore => simp at he
  | view | release => simp [mem_completions] at he
  | early => simp at he

/-- A message is delivered when it is started, or when it arrives for the first time. -/
theorem step_delivered (h : l.Step c es m) (he : .delivered i payload informed members ∈ es) :
    members = l.members ∧
    ((∃ r, es = l.startEvents r ∧ i = l.nextId ∧ l.here ∈ r.destinations ∧
        informed = l.audience r) ∨
      ∃ source destinations d, c = some (.deliver source (.send i destinations payload)) ∧
        source ∈ l.members ∧ l.delivered.insert? i = some d ∧
        informed = l.informed source i destinations) := by
  cases h with
  | drain | start =>
    simp only [mem_startEvents, CausalEvent.delivered.injEq, reduceCtorEq, and_false, or_false,
      false_or] at he
    obtain ⟨hh, rfl, rfl, rfl, rfl⟩ := he
    exact ⟨rfl, Or.inl ⟨_, rfl, rfl, hh, rfl⟩⟩
  | deliver hears fresh =>
    simp only [List.mem_singleton, CausalEvent.delivered.injEq] at he
    obtain ⟨rfl, rfl, rfl, rfl⟩ := he
    exact ⟨rfl, Or.inr ⟨_, _, _, rfl, hears.member, fresh, rfl⟩⟩
  | init | enqueue | duplicate | ignore => simp at he
  | view | release => simp [mem_completions] at he
  | early => simp at he

/-- A message that arrives is delivered, unless it was before. -/
theorem step_arrival {source : Proc} {destinations : List Proc}
    (h : l.Step (some (.deliver source (.send i destinations payload))) es m) :
    (∃ e ∈ es, e.Delivers i) ∨ l.delivered.insert? i = none := by
  cases h with
  | deliver => exact Or.inl ⟨_, List.mem_singleton.mpr rfl, rfl⟩
  | duplicate hears known => exact Or.inr known
  | init call => simp at call

/-- A list that an event shows is that of the layer, or one that the call brings. -/
theorem step_omits (h : l.Step c es m) (he : e ∈ es) (ho : e.Omits p) :
    p ∉ l.members ∨ ∃ ms, (c = some (.init ms) ∨ c = some (.view ms)) ∧ p ∉ ms := by
  cases e with
  | moved ms => exact Or.inr ⟨ms, (step_moved h he).2.1, ho⟩
  | delivered i payload informed ms =>
    obtain ⟨rfl, -⟩ := step_delivered h he
    exact Or.inl ho
  | started | completed | evicted => exact ho.elim

theorem step_keeps (h : l.Step c es m) (hp : p ∈ l.members)
    (hlist : ∀ ms, c = some (.init ms) ∨ c = some (.view ms) → p ∈ ms) :
    p ∈ m.members ∧ ∀ e ∈ es, ¬ e.Omits p := by
  constructor
  · rcases step_list h with he | hc
    · rwa [he]
    · exact hlist _ hc
  · intro e he ho
    rcases step_omits h he ho with hm | ⟨ms, hc, hm⟩
    · exact hm hp
    · exact hm (hlist ms hc)

/-! ### Who is awaited -/

theorem mem_residual {destinations : List Proc} : p ∈ l.residual i destinations ↔
    p ∈ destinations ∧ p ≠ l.here ∧ p ∈ l.members ∧ ¬ l.Acked i p := by
  simp [residual, mem_earlyAcks, and_assoc]

/-- A process becomes awaited for a message that is started or arrives. -/
theorem step_awaits (h : l.Step c es m) (ha : m.Awaits j p) :
    l.Awaits j p ∨ (∃ r, .started j r ∈ es ∧ p ∈ l.audience r) ∨
      ∃ source destinations payload informed,
        c = some (.deliver source (.send j destinations payload)) ∧
        .delivered j payload informed l.members ∈ es ∧ p ∈ l.residual j destinations := by
  cases h with
  | @drain r q idle | start accepts idle =>
    obtain ⟨rfl, hp⟩ := (awaits_start idle).mp ha
    exact Or.inr (Or.inl ⟨_, mem_startEvents.mpr (Or.inl rfl), hp⟩)
  | view => exact Or.inl (awaits_departAll.mp ha).1
  | release => exact Or.inl (awaits_release.mp ha).1
  | deliver hears fresh =>
    rcases awaits_of_awaits_await ha with ⟨rfl, hp⟩ | ha
    · exact Or.inr (Or.inr ⟨_, _, _, _, rfl, List.mem_singleton.mpr rfl, hp⟩)
    · exact Or.inl ha
  | early =>
    rw [Awaits, recordEarly_pending] at ha
    exact Or.inl ha
  | init | enqueue | duplicate | ignore => exact Or.inl ha

/-- A process stops being awaited for a message when it acknowledges the message, when a list
omits it, and when the message arrives anew. -/
theorem step_awaits_lost (h : l.Step c es m) (ha : l.Awaits j p) :
    m.Awaits j p ∨ c = some (.deliver p (.ack j)) ∨ (∃ ms, .moved ms ∈ es ∧ p ∉ ms) ∨
      ∃ source destinations payload informed,
        c = some (.deliver source (.send j destinations payload)) ∧
        .delivered j payload informed l.members ∈ es ∧ p ∉ l.residual j destinations := by
  cases h with
  | drain idle | start _ idle => exact (not_awaits_of_idle idle ha).elim
  | @view members =>
    by_cases hp : p ∈ l.members.filter (· ∉ members)
    · right; right; left
      exact ⟨members, List.mem_cons_self, by simpa using (List.mem_filter.mp hp).2⟩
    · exact Or.inl (awaits_departAll.mpr ⟨ha, hp⟩)
  | @release source id =>
    by_cases hj : j = id ∧ p = source
    · obtain ⟨rfl, rfl⟩ := hj
      exact Or.inr (Or.inl rfl)
    · exact Or.inl (awaits_release.mpr ⟨ha, by simpa using hj⟩)
  | @deliver source id destinations =>
    by_cases hj : j ≠ id ∨ p ∈ l.residual id destinations
    · exact Or.inl (awaits_await_of_awaits ha hj)
    · simp only [not_or, ne_eq, not_not] at hj
      obtain ⟨rfl, hp⟩ := hj
      exact Or.inr (Or.inr (Or.inr ⟨_, _, _, _, rfl, List.mem_singleton.mpr rfl, hp⟩))
  | early =>
    left
    rw [Awaits, recordEarly_pending]
    exact ha
  | init | enqueue | duplicate | ignore => exact Or.inl ha

/-- Those awaited for a message that arrives. -/
theorem step_awaits_residual {source : Proc} {destinations ms : List Proc}
    (h : l.Step (some (.deliver source (.send j destinations payload))) es m)
    (he : .delivered j payload informed ms ∈ es) (hp : p ∈ l.residual j destinations) :
    m.Awaits j p := by
  cases h with
  | deliver => exact awaits_await_self hp
  | duplicate => simp at he
  | init call => simp at call

theorem step_residual_ne_nil (h : l.Step c es m) (hl : ∀ e ∈ l.pending, e.2 ≠ []) :
    ∀ e ∈ m.pending, e.2 ≠ [] := by
  cases h with
  | drain | start => exact residual_ne_nil_start hl
  | view => exact residual_ne_nil_departAll hl
  | release => exact residual_ne_nil_release hl
  | deliver => exact residual_ne_nil_await hl
  | early => rwa [recordEarly_pending]
  | init | enqueue | duplicate | ignore => exact hl

/-! ### Whose acknowledgement is remembered -/

theorem step_acked (h : l.Step c es m) (ha : m.Acked i p) :
    l.Acked i p ∨ c = some (.deliver p (.ack i)) := by
  cases h with
  | drain | start =>
    rw [Acked] at ha
    exact Or.inl (by simpa [Acked] using ha)
  | view =>
    rw [Acked, moveTo, departAll_early] at ha
    exact Or.inl ha
  | deliver =>
    rw [Acked, await_early] at ha
    obtain ⟨e, he, ha⟩ := ha
    exact Or.inl ⟨e, List.mem_of_mem_filter he, ha⟩
  | early =>
    rcases acked_of_acked_recordEarly ha with ha | ⟨rfl, rfl⟩
    · exact Or.inl ha
    · exact Or.inr rfl
  | init | enqueue | duplicate | release | ignore => exact Or.inl ha

/-- Early acknowledgements are used by the delivery of their message, or evicted. -/
theorem step_acked_lost (h : l.Step c es m) (ha : l.Acked i p) :
    m.Acked i p ∨ (∃ e, .evicted e ∈ es ∧ e.id = i ∧ p ∈ e.acked) ∨ ∃ e ∈ es, e.Delivers i := by
  cases h with
  | drain | start => exact Or.inl (by simpa [Acked] using ha)
  | view =>
    left
    rw [Acked, moveTo, departAll_early]
    exact ha
  | @deliver source id =>
    by_cases hi : i = id
    · exact Or.inr (Or.inr ⟨_, List.mem_singleton.mpr rfl, hi.symm⟩)
    · left
      obtain ⟨e, he, rfl, hp⟩ := ha
      rw [Acked, await_early]
      exact ⟨e, List.mem_filter.mpr ⟨he, decide_eq_true hi⟩, rfl, hp⟩
  | early =>
    rcases acked_recordEarly_of_acked ha with ha | ⟨e, he, ha⟩
    · exact Or.inl ha
    · exact Or.inr (Or.inl ⟨e, List.mem_map.mpr ⟨e, he, rfl⟩, ha⟩)
  | init | enqueue | duplicate | release | ignore => exact Or.inl ha

/-- An entry of the table was there before, or is that of a message that is not known. It goes when
its message is delivered. -/
theorem step_early {e : EarlyAck} (h : l.Step c es m) (he : e ∈ m.early) :
    ((∃ f ∈ l.early, f.id = e.id) ∨
      ∃ q, c = some (.deliver q (.ack e.id)) ∧ l.settled e.id = false) ∧
    ∀ x ∈ es, x.Delivers e.id → e.id = l.nextId := by
  cases h with
  | drain | start =>
    refine ⟨Or.inl ⟨e, by simpa using he, rfl⟩, ?_⟩
    intro x hx hd
    rcases mem_startEvents.mp hx with rfl | ⟨-, rfl⟩ | ⟨-, rfl⟩
    · exact hd.elim
    · exact hd.symm
    · exact hd.elim
  | view =>
    rw [moveTo, departAll_early] at he
    refine ⟨Or.inl ⟨e, he, rfl⟩, ?_⟩
    intro x hx hd
    rcases List.mem_cons.mp hx with rfl | hx
    · exact hd.elim
    · obtain ⟨i, -, rfl⟩ := mem_completions.mp hx
      exact hd.elim
  | release =>
    refine ⟨Or.inl ⟨e, he, rfl⟩, ?_⟩
    intro x hx hd
    obtain ⟨i, -, rfl⟩ := mem_completions.mp hx
    exact hd.elim
  | deliver =>
    rw [await_early] at he
    obtain ⟨he, hne⟩ := List.mem_filter.mp he
    refine ⟨Or.inl ⟨e, he, rfl⟩, ?_⟩
    intro x hx hd
    rw [List.mem_singleton] at hx
    subst hx
    exact (of_decide_eq_true hne hd.symm).elim
  | @early source id hears pending settled =>
    constructor
    · rcases id_of_mem_recordEarly he with hold | rfl
      · exact Or.inl hold
      · exact Or.inr ⟨source, rfl, settled⟩
    · intro x hx hd
      obtain ⟨f, -, rfl⟩ := List.mem_map.mp hx
      exact hd.elim
  | init | enqueue | duplicate | ignore =>
    refine ⟨Or.inl ⟨e, he, rfl⟩, ?_⟩
    simp [CausalEvent.Delivers]

theorem step_nodup_early (h : l.Step c es m) (hl : (l.early.map (·.id)).Nodup) :
    (m.early.map (·.id)).Nodup := by
  cases h with
  | drain | start => simpa using hl
  | view =>
    rw [moveTo, departAll_early]
    exact hl
  | deliver =>
    rw [await_early]
    exact hl.sublist (List.filter_sublist.map _)
  | early => exact nodup_recordEarly hl
  | init | enqueue | duplicate | release | ignore => exact hl

theorem step_earlyCapacity (h : l.Step c es m) : m.earlyCapacity = l.earlyCapacity := by
  cases h with
  | drain | start => exact start_earlyCapacity
  | view => exact departAll_earlyCapacity
  | deliver => exact await_earlyCapacity
  | early => exact recordEarly_earlyCapacity
  | init | enqueue | duplicate | release | ignore => rfl

/-- An entry is evicted when an acknowledgement comes for a message that is not known and for which
the table has no room. -/
theorem step_evicted {e : EarlyAck} (h : l.Step c es m) (he : .evicted e ∈ es) :
    ∃ q i, c = some (.deliver q (.ack i)) ∧ l.settled i = false ∧ (∀ f ∈ l.early, f.id ≠ i) ∧
      l.earlyCapacity ≤ l.early.length := by
  cases h with
  | drain | start => simp [mem_startEvents] at he
  | view | release => simp [mem_completions] at he
  | @early source id hears pending settled =>
    have hnew : ∀ f ∈ l.early, f.id ≠ id := by
      intro f hf hid
      have hany : l.early.any (·.id = id) = true :=
        List.any_eq_true.mpr ⟨f, hf, decide_eq_true hid⟩
      simp [evictions, hany] at he
    refine ⟨source, id, rfl, settled, hnew, ?_⟩
    by_contra hroom
    simp [evictions, Nat.lt_of_not_le hroom] at he
  | init | deliver | enqueue | duplicate | ignore => simp at he

/-- The layer counts what it evicts. -/
theorem step_evictedEarlyAcks (h : l.Step c es m) (hes : ∀ e, .evicted e ∉ es) :
    m.stats.evictedEarlyAcks = l.stats.evictedEarlyAcks := by
  cases h with
  | drain | start => exact start_evictedEarlyAcks
  | view => rw [moveTo, departAll_stats]
  | deliver => rw [await_stats]
  | @early source id hears pending settled =>
    have hnone : l.evictions id = [] := by
      refine List.eq_nil_iff_forall_not_mem.mpr fun e he => ?_
      exact hes e (List.mem_map_of_mem he)
    rw [recordEarly_evictedEarlyAcks, hnone]
    rfl
  | init | enqueue | duplicate | release | ignore => rfl

theorem awaits_has (ha : l.Awaits i p) : l.pending.has i = true := by
  obtain ⟨residual, hmem, -⟩ := ha
  exact List.any_eq_true.mpr ⟨_, hmem, decide_eq_true rfl⟩

/-- An acknowledgement is no longer awaited, and remembered if its message is unknown. -/
theorem step_ack (h : l.Step (some (.deliver p (.ack i))) es m) :
    ¬ m.Awaits i p ∧ (l.pending.has i = true ∨ l.settled i = true ∨ m.Acked i p) := by
  cases h with
  | release hears pending =>
    exact ⟨fun ha => (awaits_release.mp ha).2 ⟨decide_eq_true rfl, rfl⟩, Or.inl pending⟩
  | ignore hears pending settled =>
    exact ⟨fun ha => by simp [awaits_has ha] at pending, Or.inr (Or.inl settled)⟩
  | early hears pending settled =>
    refine ⟨fun ha => ?_, Or.inr (Or.inr acked_recordEarly_self)⟩
    rw [Awaits, recordEarly_pending] at ha
    simp [awaits_has ha] at pending
  | init call => simp at call

/-! ### What was delivered -/

theorem step_valid (h : l.Step c es m) (hl : l.delivered.Valid) : m.delivered.Valid := by
  cases h with
  | drain | start =>
    simp only [start_delivered]
    split
    · exact Delivered.valid_insert hl
    · exact hl
  | view => exact valid_departAll hl
  | deliver hears fresh =>
    rw [await_delivered]
    exact Delivered.valid_insert? hl fresh
  | early => rwa [recordEarly_delivered]
  | init | enqueue | duplicate | release | ignore => exact hl

theorem contains_start (hl : l.delivered.Valid) :
    (l.start r).2.delivered.contains i = true ↔
      l.delivered.contains i = true ∨ (i = l.nextId ∧ l.here ∈ r.destinations) := by
  rw [start_delivered]
  split
  · rename_i hh
    rw [Delivered.contains_insert hl]
    tauto
  · rename_i hh
    simp [hh]

/-- The layer remembers what it delivers, and forgets what departed members sent. -/
theorem step_contains (h : l.Step c es m) (hl : l.delivered.Valid) :
    m.delivered.contains i = true ↔
      (l.delivered.contains i = true ∧
        ¬ ∃ ms, c = some (.view ms) ∧ l.initialized = true ∧ i.sender ∈ l.members ∧
          i.sender ∉ ms) ∨ ∃ e ∈ es, e.Delivers i := by
  have hstart : ∀ {r : CausalRequest}, (∃ e ∈ l.startEvents r, e.Delivers i) ↔
      i = l.nextId ∧ l.here ∈ r.destinations := by
    intro r
    constructor
    · rintro ⟨e, he, hd⟩
      rcases mem_startEvents.mp he with rfl | ⟨hh, rfl⟩ | ⟨-, rfl⟩
      · exact hd.elim
      · exact ⟨hd.symm, hh⟩
      · exact hd.elim
    · rintro ⟨rfl, hh⟩
      exact ⟨_, mem_startEvents.mpr (Or.inr (Or.inl ⟨hh, rfl⟩)), rfl⟩
  cases h with
  | drain | start =>
    rw [hstart]
    refine (contains_start hl).trans ?_
    simp
  | view ready nodup =>
    rw [moveTo, contains_departAll]
    simp [mem_completions, CausalEvent.Delivers, ready]
  | deliver hears fresh =>
    rw [await_delivered, Delivered.contains_insert? hl fresh]
    simp only [reduceCtorEq, Option.some.injEq, false_and, exists_false, not_false_eq_true,
      and_true, List.mem_singleton, exists_eq_left, CausalEvent.Delivers, @eq_comm _ i]
    exact or_comm
  | init call fresh => simp [CausalEvent.Delivers, fresh]
  | early => simp [CausalEvent.Delivers]
  | release => simp [release, mem_completions, CausalEvent.Delivers]
  | enqueue | duplicate | ignore => simp

/-! ### The queue -/

/-- A message is queued for members only. -/
theorem step_queue (h : l.Step c es m) (hr : r ∈ m.queue) :
    r ∈ l.queue ∨ ∀ p ∈ r.destinations, p ∈ l.members := by
  cases h with
  | drain idle queued =>
    left
    rw [queued]
    exact List.mem_cons_of_mem _ hr
  | start => exact Or.inl (by simpa using hr)
  | view => exact Or.inl (by simpa [moveTo] using hr)
  | deliver | early => exact Or.inl (by simpa using hr)
  | enqueue accepts =>
    rcases List.mem_append.mp hr with hr | hr
    · exact Or.inl hr
    · right
      rw [List.mem_singleton] at hr
      subst hr
      exact fun p hp => accepts.members p (Proc.mem_firsts.mp hp)
  | init | duplicate | release | ignore => exact Or.inl hr

end Multicast.CausalLayer
