import Multicast.Proofs.Causal.Members

/-! What becomes of the messages of a causal layer: an accepted one is queued until it is started,
and a started one is pending until it is completed. -/
namespace Multicast

namespace CausalEvent
variable {es fs : List CausalEvent} {i : MessageId} {payload : Bytes}

/-- The messages that some events start, oldest first. -/
def requests (es : List CausalEvent) : List CausalRequest :=
  es.filterMap fun
    | started _ r => some r
    | _ => none

/-- The payloads with which some events deliver a message. -/
def deliveries (i : MessageId) (es : List CausalEvent) : List Bytes :=
  es.filterMap fun
    | delivered j payload _ _ => if j = i then some payload else none
    | _ => none

@[simp] theorem requests_append : requests (es ++ fs) = requests es ++ requests fs :=
  List.filterMap_append

@[simp] theorem deliveries_append :
    deliveries i (es ++ fs) = deliveries i es ++ deliveries i fs :=
  List.filterMap_append

theorem deliveries_eq_nil : deliveries i es = [] ↔ ∀ e ∈ es, ¬ e.Delivers i := by
  rw [deliveries, List.filterMap_eq_nil_iff]
  refine forall₂_congr fun e _ => ?_
  cases e <;> simp [Delivers]

/-- The events complete what their output says is completed. -/
theorem count_outputs_completed :
    (outputs es).completed.count i = es.count (.completed i) := by
  induction es with
  | nil => rfl
  | cons e es ih =>
    have hc : (outputs (e :: es)).completed = e.output.completed ++ (outputs es).completed := rfl
    rw [hc, List.count_append, ih, List.count_cons, Nat.add_comm]
    congr 1
    cases e with
    | completed j => by_cases h : j = i <;> simp [output, h]
    | moved | started | delivered | evicted => simp [output]

end CausalEvent

/-- The message that a call hands to the layer. -/
def CausalCall.requests : CausalCall → List CausalRequest
  | .send payload destinations => [⟨payload, Proc.firsts destinations⟩]
  | _ => []

namespace CausalLayer
open CausalEvent (requests deliveries)

variable {l l' m n : CausalLayer} {c : Option CausalCall} {i j : MessageId} {p : Proc}
  {ps : List Proc} {r : CausalRequest} {q : List CausalRequest} {o : CausalOutput}
  {es fs : List CausalEvent} {which : MessageId → Bool} {payload : Bytes}

/-! ### From acceptance to start -/

theorem requests_completions : requests (completions o) = [] := by
  simp [requests, completions, List.filterMap_map]

theorem requests_startEvents : requests (l.startEvents r) = [r] := by
  unfold startEvents
  by_cases h : l.here ∈ r.destinations <;> by_cases ha : l.audience r = [] <;>
    simp [requests, h, ha]

/-- A step starts no message, or one that takes the next number. -/
theorem step_requests (h : l.Step c es m) :
    (requests es = [] ∧ m.nextSequence = l.nextSequence) ∨
      ∃ r, requests es = [r] ∧ .started l.nextId r ∈ es ∧
        m.nextSequence = l.nextSequence + 1 := by
  cases h with
  | drain | start =>
    right
    exact ⟨_, requests_startEvents, mem_startEvents.mpr (Or.inl rfl), start_nextSequence⟩
  | view => exact Or.inl ⟨requests_completions, departAll_nextSequence⟩
  | release => exact Or.inl ⟨requests_completions, rfl⟩
  | deliver => exact Or.inl ⟨rfl, await_nextSequence⟩
  | early =>
    left
    refine ⟨?_, recordEarly_nextSequence⟩
    simp [requests, List.filterMap_map]
  | init | enqueue | duplicate | ignore => exact Or.inl ⟨rfl, rfl⟩

/-- A layer that awaits nobody has nothing queued. -/
def Prompt (l : CausalLayer) : Prop := l.pending = [] → l.queue = []

theorem requests_evictions {ts : List EarlyAck} : requests (ts.map .evicted) = [] := by
  simp [requests, List.filterMap_map]

/-- A message that a call brings is started at once or goes to the end of the queue. -/
theorem step_queued {c : CausalCall} (h : l.Step (some c) es m) (hl : l.Prompt) :
    requests es ++ m.queue = l.queue ++ c.requests := by
  have hnone : requests es = [] → m.queue = l.queue → c.requests = [] →
      requests es ++ m.queue = l.queue ++ c.requests := by
    intro hes hq hc
    simp [hes, hq, hc]
  cases h with
  | start accepts idle =>
    rw [requests_startEvents, start_queue, hl idle]
    rfl
  | enqueue => rfl
  | init call =>
    refine hnone rfl rfl ?_
    rcases call with rfl | rfl <;> rfl
  | view => exact hnone requests_completions departAll_queue rfl
  | deliver => exact hnone rfl await_queue rfl
  | release => exact hnone requests_completions rfl rfl
  | early => exact hnone requests_evictions recordEarly_queue rfl
  | duplicate | ignore => exact hnone rfl rfl rfl

theorem drains_queued (h : Drains l es m) : requests es ++ m.queue = l.queue := by
  induction h with
  | done => rfl
  | step hs _ ih =>
    cases hs with
    | drain idle queued =>
      rw [CausalEvent.requests_append, List.append_assoc, ih, requests_startEvents, queued]
      rfl

/-- What is accepted is queued behind what was accepted before, and started from the front. -/
theorem call_queued {c : CausalCall} (h : l.call c = .ok (o, l')) (hl : l.Prompt) :
    requests (l.events c) ++ l'.queue = l.queue ++ c.requests := by
  obtain ⟨es, m, fs, hs, hd, he, -⟩ := call_ok h
  rw [he, CausalEvent.requests_append, List.append_assoc, drains_queued hd]
  exact step_queued hs hl

/-- What is started or queued was queued before, or is brought by a send. -/
theorem step_origin (h : l.Step c es m) (hm : m.queue ≠ [] ∨ ∃ i r, .started i r ∈ es) :
    l.queue ≠ [] ∨ ∃ payload destinations, c = some (.send payload destinations) := by
  cases h with
  | drain idle queued => simp [queued]
  | start | enqueue => exact Or.inr ⟨_, _, rfl⟩
  | init => exact Or.inl (by simpa using hm)
  | view => simpa [moveTo, mem_completions] using hm
  | release => simpa [release, mem_completions] using hm
  | deliver | early => simpa using hm
  | duplicate | ignore => simpa using hm

/-! ### A prompt layer -/

theorem prompt_startAll : (l.startAll q).2.Prompt := by
  induction q generalizing l with
  | nil => exact fun _ => rfl
  | cons r q ih =>
    by_cases h : l.pending = []
    · have hs : (l.startAll (r :: q)).2 = ((l.start r).2.startAll q).2 := by
        rw [startAll, if_pos h]
      rw [hs]
      exact ih
    · have hs : (l.startAll (r :: q)).2 = { l with queue := r :: q } := by
        rw [startAll, if_neg h]
      rw [hs]
      exact fun hp => (h hp).elim

theorem prompt_await (hl : l.Prompt) : (l.await i ps).Prompt := by
  unfold await
  split
  · exact hl
  · intro hp
    have hmem : (i, ps) ∈ insertAscending (fun a b => a.1.order b.1) (i, ps) l.pending :=
      mem_insertAscending_self
    exact (List.ne_nil_of_mem hmem hp).elim

theorem prompt_init {members : List Proc} (hl : l.Prompt)
    (h : l.init members = .ok (o, l')) : l'.Prompt := by
  unfold CausalLayer.init at h
  split at h
  · cases h
  · split at h
    · cases h
    · cases h
      exact hl

theorem prompt_send {destinations : List Proc} (h : l.send payload destinations = .ok (o, l')) :
    l'.Prompt := by
  unfold CausalLayer.send at h
  split at h
  · cases h
  split at h
  · cases h
  dsimp only at h
  split at h
  · cases h
  split at h
  · cases h
  split at h
  · cases h
    exact prompt_startAll
  · rename_i hbusy
    cases h
    exact fun hp => (hbusy hp).elim

theorem prompt_onSend {destinations : List Proc} (hl : l.Prompt) :
    (l.onSend p i destinations payload).2.Prompt := by
  unfold onSend
  split
  · exact hl
  · exact prompt_await hl

theorem prompt_onAck (hl : l.Prompt) : (l.onAck p i).2.Prompt := by
  unfold onAck
  split
  · exact prompt_startAll
  · split
    · exact hl
    · split
      · exact hl
      · intro hp
        rw [recordEarly_pending] at hp
        rw [recordEarly_queue]
        exact hl hp

theorem prompt_deliver {packet : CausalPacket} (hl : l.Prompt)
    (h : l.deliver p packet = .ok (o, l')) : l'.Prompt := by
  unfold CausalLayer.deliver at h
  split at h
  · cases h
  · split at h
    · cases h
    · cases packet with
      | send id destinations payload =>
        have hr : l.onSend p id destinations payload = (o, l') := Except.ok.inj h
        have hp : (l.onSend p id destinations payload).2.Prompt := prompt_onSend hl
        rwa [hr] at hp
      | ack id =>
        have hr : l.onAck p id = (o, l') := Except.ok.inj h
        have hp : (l.onAck p id).2.Prompt := prompt_onAck hl
        rwa [hr] at hp

theorem prompt_view {members : List Proc} (hl : l.Prompt)
    (h : l.applyView members = .ok (o, l')) : l'.Prompt := by
  unfold applyView at h
  split at h
  · exact prompt_init hl h
  · split at h
    · cases h
    · cases h
      exact prompt_startAll

theorem prompt_call {c : CausalCall} (hl : l.Prompt) (h : l.call c = .ok (o, l')) :
    l'.Prompt := by
  cases c with
  | init members => exact prompt_init hl (Fallible.mapError_eq_ok.mp h)
  | send payload destinations => exact prompt_send h
  | deliver source packet => exact prompt_deliver hl (Fallible.mapError_eq_ok.mp h)
  | view members => exact prompt_view hl (Fallible.mapError_eq_ok.mp h)

/-! ### From start to completion -/

/-- How often a message is pending. -/
def holds (l : CausalLayer) (i : MessageId) : Nat := l.pending.keys.count i

/-- How often the number of a message has been given out. -/
def issued (l : CausalLayer) (i : MessageId) : Nat := if i.sequence < l.nextSequence then 1 else 0

theorem count_keys_insertAscending {t : Table MessageId (List Proc)} (h : i ≠ j) :
    (Table.keys (insertAscending (fun a b => a.1.order b.1) (j, ps) t)).count i =
      t.keys.count i := by
  induction t with
  | nil => simp [insertAscending, Table.keys, h.symm]
  | cons e es ih =>
    simp only [insertAscending]
    split
    · simp [Table.keys, h.symm]
    · rename_i he
      have he : j = e.1 := MessageId.order_eq_iff.mp he
      simp [Table.keys, he]
    · simp only [Table.keys, List.map_cons, List.count_cons] at ih ⊢
      rw [ih]

theorem holds_await (h : i ≠ j) : (l.await j ps).holds i = l.holds i := by
  unfold await
  split
  · rfl
  · exact count_keys_insertAscending h

/-- What is dropped and what is kept make up the whole. -/
theorem count_map_filter_add {α β : Type} [DecidableEq β] (f : α → β) (b : β) (drops : α → Bool)
    (xs : List α) : ((xs.filter (!drops ·)).map f).count b + ((xs.filter drops).map f).count b =
      (xs.map f).count b := by
  induction xs with
  | nil => rfl
  | cons x xs ih =>
    by_cases h : drops x = true
    · simp only [List.filter_cons, h, List.map_cons, List.count_cons, Bool.not_true,
        Bool.false_eq_true, if_false, if_true]
      omega
    · simp only [List.filter_cons, h, List.map_cons, List.count_cons, Bool.not_false,
        Bool.false_eq_true, if_false, if_true]
      omega

/-- A message of the local process that is released is completed or still pending. -/
theorem holds_release (hi : i.sender = l.here) :
    (l.release which p).2.holds i + (l.release which p).1.completed.count i = l.holds i := by
  have hkeys : (l.pending.map fun e => if which e.1 then (e.1, e.2.filter (· ≠ p)) else e).map
      (·.1) = l.pending.keys := by
    rw [List.map_map]
    refine List.map_congr_left fun e _ => ?_
    dsimp only [Function.comp]
    split <;> rfl
  have hown : (l.release which p).1.completed.count i =
      (Table.keys ((l.pending.map fun e =>
        if which e.1 then (e.1, e.2.filter (· ≠ p)) else e).filter fun e =>
          which e.1 && e.2.isEmpty)).count i :=
    List.count_filter (by simpa using hi)
  rw [hown, holds, holds, ← hkeys]
  exact count_map_filter_add _ _ _ _

theorem holds_departAll (hi : i.sender = l.here) :
    (l.departAll ps).2.holds i + (l.departAll ps).1.completed.count i = l.holds i := by
  induction ps generalizing l with
  | nil => rfl
  | cons p ps ih =>
    have hd : (l.depart p).2.holds i + (l.depart p).1.completed.count i = l.holds i :=
      holds_release (l := { l with delivered := l.delivered.forget p }) hi
    have hps := ih (l := (l.depart p).2) hi
    change ((l.depart p).2.departAll ps).2.holds i +
      ((l.depart p).1.completed ++ ((l.depart p).2.departAll ps).1.completed).count i = _
    rw [List.count_append]
    omega

theorem count_completions : (completions o).count (.completed i) = o.completed.count i := by
  rw [completions, List.count, List.countP_map]
  refine List.countP_congr fun j _ => ?_
  simp

theorem count_evictions {ts : List EarlyAck} :
    (ts.map CausalEvent.evicted).count (.completed i) = 0 := by
  rw [List.count_eq_zero]
  simp

theorem count_startEvents :
    (l.startEvents r).count (.completed i) = if l.audience r = [] ∧ l.nextId = i then 1 else 0 := by
  unfold startEvents
  by_cases h : l.here ∈ r.destinations <;> by_cases ha : l.audience r = [] <;>
    simp [h, ha, List.count_cons]

theorem holds_start (idle : l.pending = []) :
    (l.start r).2.holds i = if l.audience r ≠ [] ∧ l.nextId = i then 1 else 0 := by
  obtain ⟨d, s, hs, -⟩ := l.start_snd (r := r)
  rw [hs, holds, await]
  by_cases ha : l.audience r = []
  · simp [ha, idle, Table.keys]
  · simp [ha, idle, Table.keys, insertAscending, List.count_cons]

theorem issued_succ (hn : m.nextSequence = l.nextSequence + 1) (hi : i.sender = l.here) :
    m.issued i = l.issued i + if l.nextId = i then 1 else 0 := by
  have hid : l.nextId = i ↔ l.nextSequence = i.sequence := by
    obtain ⟨p, k⟩ := i
    simp_all [nextId]
  simp only [issued, hn, hid]
  grind

theorem holds_of_idle (idle : l.pending = []) : l.holds i = 0 := by
  simp [holds, idle, Table.keys]

/-- A message of the local process that is started is pending or completed. -/
theorem holds_add_of_start (idle : l.pending = []) (hi : i.sender = l.here) :
    (l.start r).2.holds i + (l.startEvents r).count (.completed i) + l.issued i =
      l.holds i + (l.start r).2.issued i := by
  rw [holds_start idle, count_startEvents, holds_of_idle idle,
    issued_succ start_nextSequence hi]
  by_cases ha : l.audience r = [] <;> by_cases hn : l.nextId = i <;> simp [ha, hn] <;> omega

/-- A message of the local process is completed once, when it stops being pending. -/
theorem step_holds (h : l.Step c es m) (hi : i.sender = l.here)
    (hc : ∀ source destinations payload,
      c ≠ some (.deliver source (.send i destinations payload))) :
    m.holds i + es.count (.completed i) + l.issued i = l.holds i + m.issued i := by
  have hsame : m.nextSequence = l.nextSequence → m.issued i = l.issued i := by
    intro hn
    rw [issued, issued, hn]
  cases h with
  | drain idle | start accepts idle => exact holds_add_of_start idle hi
  | @view members =>
    have hd : (l.moveTo members).2.holds i + (l.moveTo members).1.completed.count i = l.holds i :=
      holds_departAll hi
    rw [List.count_cons_of_ne (by simp), count_completions, hsame departAll_nextSequence, hd]
  | release =>
    rw [count_completions, holds_release hi]
    rfl
  | @deliver source id destinations payload =>
    have hne : i ≠ id := by
      rintro rfl
      exact hc _ _ _ rfl
    rw [holds_await hne, hsame await_nextSequence]
    simp [holds]
  | early =>
    rw [count_evictions, hsame recordEarly_nextSequence, holds, recordEarly_pending]
    rfl
  | init | enqueue | duplicate | ignore => simp [holds, issued]

/-! ### Deliveries -/

theorem deliveries_startEvents : deliveries i (l.startEvents r) =
    if l.here ∈ r.destinations ∧ l.nextId = i then [r.payload] else [] := by
  unfold startEvents
  by_cases h : l.here ∈ r.destinations <;> by_cases ha : l.audience r = [] <;>
    by_cases hn : l.nextId = i <;> simp [deliveries, h, ha, hn]

theorem deliveries_completions : deliveries i (completions o) = [] := by
  simp [deliveries, completions, List.filterMap_map]

/-- A step delivers a message at most once. -/
theorem step_deliveries (h : l.Step c es m) : deliveries i es = [] ∨
    ∃ payload informed, .delivered i payload informed l.members ∈ es ∧
      deliveries i es = [payload] := by
  cases h with
  | @drain r | @start payload destinations =>
    rw [deliveries_startEvents]
    split
    · rename_i hi
      obtain ⟨hh, rfl⟩ := hi
      exact Or.inr ⟨_, _, mem_startEvents.mpr (Or.inr (Or.inl ⟨hh, rfl⟩)), rfl⟩
    · exact Or.inl rfl
  | @deliver source id destinations payload =>
    by_cases hi : id = i
    · subst hi
      exact Or.inr ⟨payload, _, List.mem_singleton.mpr rfl, by simp [deliveries]⟩
    · left
      simp [deliveries, hi]
  | init | enqueue | duplicate | ignore => exact Or.inl rfl
  | view => exact Or.inl deliveries_completions
  | release => exact Or.inl deliveries_completions
  | early =>
    left
    simp [deliveries, List.filterMap_map]

end CausalLayer

end Multicast
