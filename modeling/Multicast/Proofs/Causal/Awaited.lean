import Multicast.Order.Causal
import Multicast.Proofs.Ascending
import Multicast.Proofs.Delivered

/-! Whom a causal layer waits for, and whose acknowledgements it remembers. -/
namespace Multicast.CausalLayer

variable {l : CausalLayer} {i j : MessageId} {p q : Proc} {ps residual : List Proc}
  {r : CausalRequest} {which : MessageId → Bool}

/-- `p` has still to acknowledge the pending message `i`. -/
def Awaits (l : CausalLayer) (i : MessageId) (p : Proc) : Prop :=
  ∃ residual, (i, residual) ∈ l.pending ∧ p ∈ residual

/-- `p` is remembered to have acknowledged `i` early. -/
def Acked (l : CausalLayer) (i : MessageId) (p : Proc) : Prop :=
  ∃ e ∈ l.early, e.id = i ∧ p ∈ e.acked

/-- What makes room in the table of early acknowledgements for a message. -/
def evictions (l : CausalLayer) (i : MessageId) : List EarlyAck :=
  if l.early.any (·.id = i) || l.early.length < l.earlyCapacity then [] else l.early.take 1

theorem not_awaits_of_idle (h : l.pending = []) : ¬ l.Awaits i p := by
  simp [Awaits, h]

theorem mem_earlyAcks : p ∈ l.earlyAcks i ↔ l.Acked i p := by
  simp [earlyAcks, Acked, and_assoc]

/-! ### Taking up a message -/

@[simp] theorem await_here : (l.await i ps).here = l.here := by unfold await; split <;> rfl
@[simp] theorem await_members : (l.await i ps).members = l.members := by unfold await; split <;> rfl
@[simp] theorem await_initialized : (l.await i ps).initialized = l.initialized := by
  unfold await; split <;> rfl
@[simp] theorem await_nextSequence : (l.await i ps).nextSequence = l.nextSequence := by
  unfold await; split <;> rfl
@[simp] theorem await_queue : (l.await i ps).queue = l.queue := by unfold await; split <;> rfl
@[simp] theorem await_early : (l.await i ps).early = l.early := by unfold await; split <;> rfl
@[simp] theorem await_earlyCapacity : (l.await i ps).earlyCapacity = l.earlyCapacity := by
  unfold await; split <;> rfl
@[simp] theorem await_arrivals : (l.await i ps).arrivals = l.arrivals := by
  unfold await; split <;> rfl
@[simp] theorem await_maxOutstanding : (l.await i ps).maxOutstanding = l.maxOutstanding := by
  unfold await; split <;> rfl
@[simp] theorem await_delivered : (l.await i ps).delivered = l.delivered := by
  unfold await; split <;> rfl
@[simp] theorem await_stats : (l.await i ps).stats = l.stats := by unfold await; split <;> rfl

theorem order_fst_eq_iff {α : Type} {a b : MessageId × α} : a.1.order b.1 = .eq ↔ a.1 = b.1 :=
  MessageId.order_eq_iff

theorem mem_pending_await {e : MessageId × List Proc} (h : e ∈ (l.await i ps).pending) :
    (e = (i, ps) ∧ ps ≠ []) ∨ e ∈ l.pending := by
  unfold await at h
  split at h
  · exact Or.inr h
  · rename_i hne
    rcases mem_of_mem_insertAscending h with he | he
    · exact Or.inl ⟨he, hne⟩
    · exact Or.inr he

theorem awaits_of_awaits_await (h : (l.await i ps).Awaits j p) :
    (j = i ∧ p ∈ ps) ∨ l.Awaits j p := by
  obtain ⟨residual, hmem, hp⟩ := h
  rcases mem_pending_await hmem with ⟨he, -⟩ | hmem
  · cases he
    exact Or.inl ⟨rfl, hp⟩
  · exact Or.inr ⟨residual, hmem, hp⟩

theorem awaits_await_self (h : p ∈ ps) : (l.await i ps).Awaits i p := by
  unfold await
  split
  · simp_all
  · exact ⟨ps, mem_insertAscending_self, h⟩

/-- Only those awaited for the same message before can be lost. -/
theorem awaits_await_of_awaits (h : l.Awaits j p) (hn : j ≠ i ∨ p ∈ ps) :
    (l.await i ps).Awaits j p := by
  by_cases hj : j = i
  · subst hj
    exact awaits_await_self (by simpa using hn)
  · obtain ⟨residual, hmem, hp⟩ := h
    unfold await
    split
    · exact ⟨residual, hmem, hp⟩
    · refine ⟨residual, mem_insertAscending_of_mem hmem ?_, hp⟩
      rw [ne_eq, order_fst_eq_iff]
      exact fun he => hj he.symm

/-! ### Starting a message -/

/-- Those whose acknowledgement a message needs once it is started. -/
def audience (l : CausalLayer) (r : CausalRequest) : List Proc :=
  Proc.ascending (r.destinations.filter (· ≠ l.here))

@[simp] theorem mem_audience : p ∈ l.audience r ↔ p ∈ r.destinations ∧ p ≠ l.here := by
  simp [audience]

/-- The identifier of the next message. -/
def nextId (l : CausalLayer) : MessageId := ⟨l.here, l.nextSequence⟩

/-- A start takes up the message as pending in a layer that has counted it. -/
theorem start_snd : ∃ (d : Delivered) (stats : CausalStats),
    (l.start r).2 =
      { l with nextSequence := l.nextSequence + 1, delivered := d, stats }.await
        l.nextId (l.audience r) ∧
    d = if l.here ∈ r.destinations then l.delivered.insert l.nextId else l.delivered := by
  by_cases h : l.here ∈ r.destinations
  · refine ⟨_, { l.stats with sent := l.stats.sent + 1, delivered := l.stats.delivered + 1 },
      ?_, (if_pos h).symm⟩
    rw [start, if_pos h]
    rfl
  · refine ⟨_, { l.stats with sent := l.stats.sent + 1 }, ?_, (if_neg h).symm⟩
    rw [start, if_neg h]
    rfl

@[simp] theorem start_here : (l.start r).2.here = l.here := by
  obtain ⟨d, s, h, -⟩ := l.start_snd (r := r); simp [h]
@[simp] theorem start_members : (l.start r).2.members = l.members := by
  obtain ⟨d, s, h, -⟩ := l.start_snd (r := r); simp [h]
@[simp] theorem start_initialized : (l.start r).2.initialized = l.initialized := by
  obtain ⟨d, s, h, -⟩ := l.start_snd (r := r); simp [h]
@[simp] theorem start_queue : (l.start r).2.queue = l.queue := by
  obtain ⟨d, s, h, -⟩ := l.start_snd (r := r); simp [h]
@[simp] theorem start_early : (l.start r).2.early = l.early := by
  obtain ⟨d, s, h, -⟩ := l.start_snd (r := r); simp [h]
@[simp] theorem start_earlyCapacity : (l.start r).2.earlyCapacity = l.earlyCapacity := by
  obtain ⟨d, s, h, -⟩ := l.start_snd (r := r); simp [h]
@[simp] theorem start_arrivals : (l.start r).2.arrivals = l.arrivals := by
  obtain ⟨d, s, h, -⟩ := l.start_snd (r := r); simp [h]
@[simp] theorem start_maxOutstanding : (l.start r).2.maxOutstanding = l.maxOutstanding := by
  obtain ⟨d, s, h, -⟩ := l.start_snd (r := r); simp [h]
@[simp] theorem start_nextSequence : (l.start r).2.nextSequence = l.nextSequence + 1 := by
  obtain ⟨d, s, h, -⟩ := l.start_snd (r := r); simp [h]

theorem start_evictedEarlyAcks :
    (l.start r).2.stats.evictedEarlyAcks = l.stats.evictedEarlyAcks := by
  by_cases h : l.here ∈ r.destinations
  · simp only [start, if_pos h, await_stats]
  · simp only [start, if_neg h, await_stats]

theorem start_delivered : (l.start r).2.delivered =
    if l.here ∈ r.destinations then l.delivered.insert l.nextId else l.delivered := by
  obtain ⟨d, s, h, hd⟩ := l.start_snd (r := r)
  simp [h, hd]

theorem awaits_start (h : l.pending = []) :
    (l.start r).2.Awaits j p ↔ j = l.nextId ∧ p ∈ l.audience r := by
  obtain ⟨d, s, hs, -⟩ := l.start_snd (r := r)
  rw [hs]
  constructor
  · intro ha
    rcases awaits_of_awaits_await ha with ha | ha
    · exact ha
    · exact (not_awaits_of_idle h ha).elim
  · rintro ⟨rfl, hp⟩
    exact awaits_await_self hp

theorem residual_ne_nil_await (h : ∀ e ∈ l.pending, e.2 ≠ []) :
    ∀ e ∈ (l.await i ps).pending, e.2 ≠ [] := by
  intro e he
  rcases mem_pending_await he with ⟨rfl, hne⟩ | he
  · exact hne
  · exact h e he

theorem residual_ne_nil_start (h : ∀ e ∈ l.pending, e.2 ≠ []) :
    ∀ e ∈ (l.start r).2.pending, e.2 ≠ [] := by
  obtain ⟨d, s, hs, -⟩ := l.start_snd (r := r)
  rw [hs]
  exact residual_ne_nil_await h

/-! ### Releasing a process -/

theorem mem_pending_release {e : MessageId × List Proc} :
    e ∈ (l.release which p).2.pending ↔
      ∃ residual, (e.1, residual) ∈ l.pending ∧
        e.2 = (if which e.1 then residual.filter (· ≠ p) else residual) ∧
        (which e.1 = true → e.2 ≠ []) := by
  obtain ⟨i, ps⟩ := e
  constructor
  · intro h
    obtain ⟨hm, hs⟩ := List.mem_filter.mp h
    obtain ⟨⟨j, residual⟩, hf, he⟩ := List.mem_map.mp hm
    by_cases hw : which j = true
    · rw [if_pos hw] at he
      cases he
      exact ⟨residual, hf, (if_pos hw).symm, by simpa [hw] using hs⟩
    · rw [if_neg hw] at he
      cases he
      exact ⟨ps, hf, (if_neg hw).symm, fun h => (hw h).elim⟩
  · rintro ⟨residual, hf, he, hs⟩
    dsimp only at he hs
    refine List.mem_filter.mpr ⟨List.mem_map.mpr ⟨_, hf, ?_⟩, ?_⟩
    · split <;> simp_all
    · by_cases hw : which i = true
      · simp [hs hw]
      · simp [hw]

theorem awaits_release :
    (l.release which p).2.Awaits j q ↔ l.Awaits j q ∧ ¬ (which j = true ∧ q = p) := by
  constructor
  · rintro ⟨ps, hmem, hq⟩
    obtain ⟨residual, hl, he, -⟩ := mem_pending_release.mp hmem
    dsimp only at hl he
    rw [he] at hq
    split at hq
    · obtain ⟨hq, hne⟩ := List.mem_filter.mp hq
      exact ⟨⟨residual, hl, hq⟩, fun h => of_decide_eq_true hne h.2⟩
    · rename_i hw
      exact ⟨⟨residual, hl, hq⟩, fun h => hw h.1⟩
  · rintro ⟨⟨residual, hl, hq⟩, hne⟩
    have hq' : q ∈ if which j then residual.filter (· ≠ p) else residual := by
      split
      · rename_i hw
        exact List.mem_filter.mpr ⟨hq, decide_eq_true fun h => hne ⟨hw, h⟩⟩
      · exact hq
    exact ⟨_, mem_pending_release.mpr ⟨residual, hl, rfl, fun _ => List.ne_nil_of_mem hq'⟩, hq'⟩

theorem residual_ne_nil_release (h : ∀ e ∈ l.pending, e.2 ≠ []) :
    ∀ e ∈ (l.release which p).2.pending, e.2 ≠ [] := by
  intro e he
  obtain ⟨residual, hl, hr, hs⟩ := mem_pending_release.mp he
  by_cases hw : which e.1 = true
  · exact hs hw
  · rw [hr, if_neg hw]
    exact h _ hl

/-! ### Departures -/

@[simp] theorem departAll_here : (l.departAll ps).2.here = l.here := by
  induction ps generalizing l with
  | nil => rfl
  | cons p ps ih => exact ih
@[simp] theorem departAll_members : (l.departAll ps).2.members = l.members := by
  induction ps generalizing l with
  | nil => rfl
  | cons p ps ih => exact ih
@[simp] theorem departAll_initialized : (l.departAll ps).2.initialized = l.initialized := by
  induction ps generalizing l with
  | nil => rfl
  | cons p ps ih => exact ih
@[simp] theorem departAll_nextSequence :
    (l.departAll ps).2.nextSequence = l.nextSequence := by
  induction ps generalizing l with
  | nil => rfl
  | cons p ps ih => exact ih
@[simp] theorem departAll_queue : (l.departAll ps).2.queue = l.queue := by
  induction ps generalizing l with
  | nil => rfl
  | cons p ps ih => exact ih
@[simp] theorem departAll_earlyCapacity :
    (l.departAll ps).2.earlyCapacity = l.earlyCapacity := by
  induction ps generalizing l with
  | nil => rfl
  | cons p ps ih => exact ih
@[simp] theorem departAll_early : (l.departAll ps).2.early = l.early := by
  induction ps generalizing l with
  | nil => rfl
  | cons p ps ih => exact ih
@[simp] theorem departAll_arrivals : (l.departAll ps).2.arrivals = l.arrivals := by
  induction ps generalizing l with
  | nil => rfl
  | cons p ps ih => exact ih
@[simp] theorem departAll_maxOutstanding :
    (l.departAll ps).2.maxOutstanding = l.maxOutstanding := by
  induction ps generalizing l with
  | nil => rfl
  | cons p ps ih => exact ih
@[simp] theorem departAll_stats : (l.departAll ps).2.stats = l.stats := by
  induction ps generalizing l with
  | nil => rfl
  | cons p ps ih => exact ih

theorem awaits_depart : (l.depart p).2.Awaits j q ↔ l.Awaits j q ∧ q ≠ p := by
  rw [depart, awaits_release]
  simp [Awaits]

theorem awaits_departAll : (l.departAll ps).2.Awaits j q ↔ l.Awaits j q ∧ q ∉ ps := by
  induction ps generalizing l with
  | nil => simp [departAll]
  | cons p ps ih =>
    have hd : (l.departAll (p :: ps)).2 = ((l.depart p).2.departAll ps).2 := rfl
    rw [hd, ih, awaits_depart, List.mem_cons]
    tauto

theorem residual_ne_nil_departAll (h : ∀ e ∈ l.pending, e.2 ≠ []) :
    ∀ e ∈ (l.departAll ps).2.pending, e.2 ≠ [] := by
  induction ps generalizing l with
  | nil => exact h
  | cons p ps ih => exact ih (l := (l.depart p).2) (residual_ne_nil_release h)

theorem valid_departAll (h : l.delivered.Valid) : (l.departAll ps).2.delivered.Valid := by
  induction ps generalizing l with
  | nil => exact h
  | cons p ps ih => exact ih (l := (l.depart p).2) (Delivered.valid_forget h)

theorem contains_departAll : (l.departAll ps).2.delivered.contains i = true ↔
    l.delivered.contains i = true ∧ i.sender ∉ ps := by
  induction ps generalizing l with
  | nil => simp [departAll]
  | cons p ps ih =>
    have hd : (l.departAll (p :: ps)).2 = ((l.depart p).2.departAll ps).2 := rfl
    have hp : (l.depart p).2.delivered = l.delivered.forget p := rfl
    rw [hd, ih, hp, Delivered.contains_forget, List.mem_cons]
    tauto

/-! ### Early acknowledgements -/

@[simp] theorem recordEarly_here : (l.recordEarly p i).here = l.here := by
  unfold recordEarly; split <;> rfl
@[simp] theorem recordEarly_members : (l.recordEarly p i).members = l.members := by
  unfold recordEarly; split <;> rfl
@[simp] theorem recordEarly_initialized :
    (l.recordEarly p i).initialized = l.initialized := by
  unfold recordEarly; split <;> rfl
@[simp] theorem recordEarly_nextSequence :
    (l.recordEarly p i).nextSequence = l.nextSequence := by
  unfold recordEarly; split <;> rfl
@[simp] theorem recordEarly_queue : (l.recordEarly p i).queue = l.queue := by
  unfold recordEarly; split <;> rfl
@[simp] theorem recordEarly_earlyCapacity :
    (l.recordEarly p i).earlyCapacity = l.earlyCapacity := by
  unfold recordEarly; split <;> rfl
@[simp] theorem recordEarly_maxOutstanding :
    (l.recordEarly p i).maxOutstanding = l.maxOutstanding := by
  unfold recordEarly; split <;> rfl
@[simp] theorem recordEarly_pending : (l.recordEarly p i).pending = l.pending := by
  unfold recordEarly; split <;> rfl
@[simp] theorem recordEarly_delivered : (l.recordEarly p i).delivered = l.delivered := by
  unfold recordEarly; split <;> rfl

/-- The table after an acknowledgement is recorded: a known message gains a process, a new one
takes the place of what was evicted. -/
theorem recordEarly_early : (l.recordEarly p i).early =
    if l.early.any (·.id = i) then
      l.early.map fun e =>
        if e.id = i then { e with acked := insertAscending Proc.order p e.acked } else e
    else l.early.drop (l.evictions i).length ++ [⟨i, l.arrivals, [p]⟩] := by
  unfold recordEarly evictions
  by_cases h : l.early.any (·.id = i) = true
  · rw [if_pos h, if_pos h]
  · rw [if_neg h, if_neg h]
    by_cases hc : l.earlyCapacity ≤ l.early.length
    · simp [h, hc, Nat.not_lt_of_le hc]
    · simp [h, hc, Nat.lt_of_not_le hc]

theorem recordEarly_evictedEarlyAcks : (l.recordEarly p i).stats.evictedEarlyAcks =
    l.stats.evictedEarlyAcks + (l.evictions i).length := by
  unfold recordEarly evictions
  by_cases h : l.early.any (·.id = i) = true
  · simp [h]
  · by_cases hc : l.earlyCapacity ≤ l.early.length
    · simp [h, hc, Nat.not_lt_of_le hc]
    · simp [h, hc, Nat.lt_of_not_le hc]

theorem acked_of_acked_recordEarly (h : (l.recordEarly p i).Acked j q) :
    l.Acked j q ∨ (j = i ∧ q = p) := by
  obtain ⟨e, he, rfl, hq⟩ := h
  rw [recordEarly_early] at he
  split at he
  · obtain ⟨f, hf, rfl⟩ := List.mem_map.mp he
    by_cases hi : f.id = i
    · rw [if_pos hi] at hq ⊢
      rcases mem_of_mem_insertAscending hq with rfl | hq
      · exact Or.inr ⟨hi, rfl⟩
      · exact Or.inl ⟨f, hf, rfl, hq⟩
    · rw [if_neg hi] at hq ⊢
      exact Or.inl ⟨f, hf, rfl, hq⟩
  · rcases List.mem_append.mp he with he | he
    · exact Or.inl ⟨e, List.mem_of_mem_drop he, rfl, hq⟩
    · simp only [List.mem_singleton] at he
      subst he
      exact Or.inr ⟨rfl, by simpa using hq⟩

theorem acked_recordEarly_self : (l.recordEarly p i).Acked i p := by
  rw [Acked, recordEarly_early]
  split
  · rename_i h
    obtain ⟨e, he, hi⟩ := List.any_eq_true.mp h
    have hi : e.id = i := of_decide_eq_true hi
    exact ⟨_, List.mem_map.mpr ⟨e, he, rfl⟩, by simp [hi],
      by simp [hi, mem_insertAscending_self]⟩
  · exact ⟨_, List.mem_append_right _ (List.mem_singleton.mpr rfl), rfl, by simp⟩

/-- An acknowledgement stays in the table unless it is evicted. -/
theorem acked_recordEarly_of_acked (h : l.Acked j q) :
    (l.recordEarly p i).Acked j q ∨ ∃ e ∈ l.evictions i, e.id = j ∧ q ∈ e.acked := by
  obtain ⟨e, he, rfl, hq⟩ := h
  by_cases ha : l.early.any (·.id = i) = true
  · left
    rw [Acked, recordEarly_early, if_pos ha]
    refine ⟨_, List.mem_map.mpr ⟨e, he, rfl⟩, by split <;> rfl, ?_⟩
    split
    · exact (mem_insertAscending fun _ _ => Proc.order_eq_iff).mpr (Or.inr hq)
    · exact hq
  · have hd : l.evictions i ++ l.early.drop (l.evictions i).length = l.early := by
      unfold evictions
      split
      · rfl
      · cases l.early <;> rfl
    rw [← hd] at he
    rcases List.mem_append.mp he with he | he
    · exact Or.inr ⟨e, he, rfl, hq⟩
    · left
      rw [Acked, recordEarly_early, if_neg ha]
      exact ⟨e, List.mem_append_left _ he, rfl, hq⟩

/-- An entry is an old one, or that of the message acknowledged. -/
theorem id_of_mem_recordEarly {e : EarlyAck} (he : e ∈ (l.recordEarly p i).early) :
    (∃ f ∈ l.early, f.id = e.id) ∨ e.id = i := by
  rw [recordEarly_early] at he
  split at he
  · obtain ⟨f, hf, rfl⟩ := List.mem_map.mp he
    left
    refine ⟨f, hf, ?_⟩
    split <;> rfl
  · rcases List.mem_append.mp he with he | he
    · exact Or.inl ⟨e, List.mem_of_mem_drop he, rfl⟩
    · rw [List.mem_singleton] at he
      exact Or.inr (by rw [he])

/-- Each message has one entry. -/
theorem nodup_recordEarly (h : (l.early.map (·.id)).Nodup) :
    ((l.recordEarly p i).early.map (·.id)).Nodup := by
  rw [recordEarly_early]
  split
  · rw [List.map_map]
    have hid : l.early.map ((·.id) ∘ fun e : EarlyAck =>
        if e.id = i then { e with acked := insertAscending Proc.order p e.acked } else e) =
        l.early.map (·.id) := by
      refine List.map_congr_left fun e _ => ?_
      dsimp only [Function.comp]
      split <;> rfl
    rwa [hid]
  · rename_i hnew
    have hnew : ∀ e ∈ l.early, e.id ≠ i := by
      intro e he hi
      exact hnew (List.any_eq_true.mpr ⟨e, he, decide_eq_true hi⟩)
    rw [List.map_append, List.map_drop]
    have hdrop := h.sublist (List.drop_sublist (l.evictions i).length (l.early.map (·.id)))
    refine List.nodup_append.mpr ⟨hdrop, by simp, ?_⟩
    intro j hj k hk
    obtain ⟨e, he, rfl⟩ := List.mem_map.mp (List.mem_of_mem_drop hj)
    rw [List.map_singleton, List.mem_singleton] at hk
    rw [hk]
    exact hnew e he

end Multicast.CausalLayer
