import Multicast.Proofs.Causal.EarlyTable
import Multicast.Proofs.Causal.Repeats

/-! What a causal layer keeps, whatever it is asked to do and whatever packets come in: it queues
only behind what is pending, awaits others only, and keeps the early acknowledgements of the
messages that it has heard of last. -/
namespace Multicast

/-- What happens to the early acknowledgements of a message. -/
inductive EarlyOp where
  | keep
  /-- One more acknowledgement is remembered. -/
  | record (source : Proc) (id : MessageId)
  /-- The message has arrived. -/
  | take (id : MessageId)
  deriving DecidableEq, Repr

namespace EarlyIndex

def apply (t : EarlyIndex) (capacity : Nat) : EarlyOp → EarlyIndex
  | .keep => t
  | .record source id => t.record capacity source id
  | .take id => (t.take id).2

end EarlyIndex

namespace CausalLayer

variable {l m : CausalLayer} {c : Option CausalCall} {call : CausalCall} {i j : MessageId}
  {p : Proc} {es : List CausalEvent} {calls : List CausalCall} {op : EarlyOp}
  {ids : List MessageId} {t : EarlyIndex}

/-- What a call does to the early acknowledgements. -/
def earlyOp (l : CausalLayer) (call : CausalCall) : EarlyOp :=
  match l.call call, call with
  | .ok _, .deliver source (.ack id) =>
    if l.pending.has id || l.settled id then .keep else .record source id
  | .ok _, .deliver _ (.send id _ _) => if (l.delivered.insert? id).isSome then .take id else .keep
  | _, _ => .keep

/-- The layer after no more than this was done to the early acknowledgements. -/
def doEarly (l : CausalLayer) : EarlyOp → CausalLayer
  | .keep => l
  | .record source id => l.recordEarly source id
  | .take id => { l with early := l.early.filter (·.id ≠ id) }

/-- The two maps after some calls. -/
def indexAfter (l : CausalLayer) (t : EarlyIndex) : List CausalCall → EarlyIndex
  | [] => t
  | call :: calls =>
    (l.after call).indexAfter (t.apply l.earlyCapacity (l.earlyOp call)) calls

/-- The messages that are new in the table after a call. -/
def enteredBy (l : CausalLayer) (call : CausalCall) : List MessageId :=
  (l.after call).heardOf.filter (· ∉ l.heardOf)

/-- The messages that were entered in the table in some calls, in order. -/
def entered (l : CausalLayer) : List CausalCall → List MessageId
  | [] => []
  | call :: calls => l.enteredBy call ++ (l.after call).entered calls

/-! ### The early acknowledgements -/

theorem drains_early (h : Drains l es m) : m.early = l.early ∧ m.arrivals = l.arrivals := by
  induction h with
  | done => exact ⟨rfl, rfl⟩
  | step hs _ ih =>
    cases hs with
    | drain => simpa using ih

theorem early_after (l : CausalLayer) (call : CausalCall) :
    (l.after call).early = (l.doEarly (l.earlyOp call)).early ∧
      (l.after call).arrivals = (l.doEarly (l.earlyOp call)).arrivals := by
  cases h : l.call call with
  | error e =>
    have hop : l.earlyOp call = .keep := by simp only [earlyOp, h]
    rw [(unchanged_of_error h).1, hop]
    exact ⟨rfl, rfl⟩
  | ok result =>
    obtain ⟨es, m, fs, hs, hd, -, -⟩ := call_ok h
    obtain ⟨hearly, harrivals⟩ := drains_early hd
    rw [after_of_ok h, hearly, harrivals]
    cases hs with
    | init call => rcases call with rfl | rfl <;> simp [earlyOp, h, doEarly]
    | view => simp [earlyOp, h, doEarly, moveTo]
    | start | enqueue => simp [earlyOp, h, doEarly]
    | deliver hears fresh => simp [earlyOp, h, doEarly, fresh]
    | duplicate hears known => simp [earlyOp, h, doEarly, known]
    | release hears pending => simp [earlyOp, h, doEarly, pending, release]
    | ignore hears pending settled => simp [earlyOp, h, doEarly, settled]
    | early hears pending settled => simp [earlyOp, h, doEarly, pending, settled]

theorem numbered_doEarly (h : Numbered l.early l.arrivals) :
    Numbered (l.doEarly op).early (l.doEarly op).arrivals := by
  cases op with
  | keep => exact h
  | record => exact numbered_recordEarly h
  | take => exact h.sublist List.filter_sublist

theorem index_doEarly (h : Numbered l.early l.arrivals) :
    (l.doEarly op).index = l.index.apply l.earlyCapacity op := by
  cases op with
  | keep => rfl
  | record => exact index_recordEarly h
  | take id => exact (congrArg Prod.snd (EarlyIndex.take_ofList h)).symm

theorem index_after (h : Numbered l.early l.arrivals) :
    (l.after call).index = l.index.apply l.earlyCapacity (l.earlyOp call) := by
  obtain ⟨hearly, harrivals⟩ := early_after l call
  rw [index, hearly, harrivals]
  exact index_doEarly h

theorem numbered_after (h : Numbered l.early l.arrivals) :
    Numbered (l.after call).early (l.after call).arrivals := by
  obtain ⟨hearly, harrivals⟩ := early_after l call
  rw [hearly, harrivals]
  exact numbered_doEarly h

/-- The list of a layer stands for what the two maps have become. -/
theorem indexAfter_eq (h : Numbered l.early l.arrivals) :
    l.indexAfter l.index calls = (l.run calls).index := by
  induction calls generalizing l with
  | nil => rfl
  | cons call calls ih =>
    rw [indexAfter, ← index_after h]
    exact ih (numbered_after h)

/-- A call drops entries, or enters one message after the others. For that it makes room by the
entry with the least number. -/
theorem order_after (l : CausalLayer) (call : CausalCall) :
    ((l.after call).index.order.Sublist l.index.order ∧ (l.after call).arrivals = l.arrivals) ∨
    ∃ i, i ∉ l.heardOf ∧ (l.after call).index.order =
      l.index.order.drop (if l.earlyCapacity ≤ l.early.length then 1 else 0) ++
        [(l.arrivals, i)] ∧ (l.after call).arrivals = l.arrivals + 1 := by
  obtain ⟨hearly, harrivals⟩ := early_after l call
  rw [harrivals, index, index, EarlyIndex.ofList, EarlyIndex.ofList, hearly]
  dsimp only
  cases l.earlyOp call with
  | keep => exact .inl ⟨List.Sublist.refl _, rfl⟩
  | take id => exact .inl ⟨List.filter_sublist.map _, rfl⟩
  | record p i =>
    dsimp only [doEarly]
    by_cases hi : i ∈ l.heardOf
    · have hsame : (l.recordEarly p i).early.map (fun e => (e.arrival, e.id)) =
          l.early.map fun e => (e.arrival, e.id) := by
        rw [recordEarly_of_mem hi, List.map_map]
        refine List.map_congr_left fun e _ => ?_
        dsimp only [Function.comp]
        split <;> rfl
      rw [hsame, recordEarly_of_mem hi]
      exact .inl ⟨List.Sublist.refl _, rfl⟩
    · obtain ⟨hentries, hnumber⟩ := recordEarly_of_not_mem (p := p) hi
      right
      rw [hentries, hnumber, List.map_append, List.map_drop]
      exact ⟨i, hi, rfl, rfl⟩

theorem heardOf_eq : l.heardOf = l.index.order.map Prod.snd := by
  rw [index, EarlyIndex.ofList, List.map_map]
  rfl

/-- The number of each message in the table is its place among those that were entered, and it has
not been entered since. -/
structure Dated (l : CausalLayer) (ids : List MessageId) : Prop where
  count : ids.length = l.arrivals
  latest : ∀ n i, (n, i) ∈ l.index.order → ids[n]? = some i ∧ i ∉ ids.drop (n + 1)

theorem dated_after (h : Numbered l.early l.arrivals) (hd : l.Dated ids) :
    (l.after call).Dated (ids ++ l.enteredBy call) := by
  rcases order_after l call with ⟨horder, harrivals⟩ | ⟨i, hi, horder, harrivals⟩
  · have hnone : l.enteredBy call = [] := by
      rw [enteredBy, List.filter_eq_nil_iff]
      intro j hj
      rw [heardOf_eq] at hj
      have hold : j ∈ l.heardOf := by
        rw [heardOf_eq]
        exact (horder.map _).subset hj
      simp [hold]
    rw [hnone, List.append_nil]
    exact ⟨by rw [hd.count, harrivals], fun n j hj => hd.latest n j (horder.subset hj)⟩
  · have hone : l.enteredBy call = [i] := by
      rw [enteredBy, heardOf_eq (l := l.after call), horder, List.map_append, List.map_drop,
        ← heardOf_eq, List.filter_append]
      have hold : (l.heardOf.drop (if l.earlyCapacity ≤ l.early.length then 1 else 0)).filter
          (· ∉ l.heardOf) = [] := by
        rw [List.filter_eq_nil_iff]
        intro j hj
        simp [List.mem_of_mem_drop hj]
      rw [hold]
      simp [hi]
    rw [hone]
    refine ⟨by rw [List.length_append, hd.count, harrivals]; rfl, fun n j hj => ?_⟩
    rw [horder] at hj
    rcases List.mem_append.mp hj with hj | hj
    · have hj : (n, j) ∈ l.index.order := List.mem_of_mem_drop hj
      have hn : n < l.arrivals := (EarlyIndex.paired_ofList h).below n j hj
      obtain ⟨hplace, hsince⟩ := hd.latest n j hj
      have hheard : j ∈ l.heardOf := by
        rw [heardOf_eq]
        exact List.mem_map_of_mem hj
      have hne : j ≠ i := fun heq => hi (heq ▸ hheard)
      rw [List.getElem?_append_left (by rw [hd.count]; exact hn),
        List.drop_append_of_le_length (by rw [hd.count]; exact hn)]
      refine ⟨hplace, fun hmem => ?_⟩
      rcases List.mem_append.mp hmem with hmem | hmem
      · exact hsince hmem
      · exact hne (List.mem_singleton.mp hmem)
    · obtain ⟨rfl, rfl⟩ := Prod.mk.inj (List.mem_singleton.mp hj)
      rw [← hd.count]
      simp

/-- A message that makes room for a new one was entered before all others in the table. -/
theorem oldest_evicted (h : Numbered l.early l.arrivals) (hd : l.Dated ids) (hi : i ∉ l.heardOf)
    (hnew : i ∈ (l.after call).heardOf) (hj : j ∈ l.heardOf) (hgone : j ∉ (l.after call).heardOf) :
    ∃ past since, ids = past ++ j :: since ∧ j ∉ since ∧ ∀ k ∈ l.heardOf, k ≠ j → k ∈ since := by
  rw [heardOf_eq] at hnew hgone
  rcases order_after l call with ⟨horder, -⟩ | ⟨i', -, horder, -⟩
  · refine (hi ?_).elim
    rw [heardOf_eq]
    exact (horder.map _).subset hnew
  · rw [horder, List.map_append, List.map_drop, ← heardOf_eq] at hgone
    have hdropped : j ∉ l.heardOf.drop (if l.earlyCapacity ≤ l.early.length then 1 else 0) :=
      fun hmem => hgone (List.mem_append_left _ hmem)
    have hrest : j ∉ l.heardOf.drop 1 := by
      split at hdropped
      · exact hdropped
      · exact (hdropped hj).elim
    have hascending : l.index.order.Pairwise (·.1 < ·.1) := (EarlyIndex.paired_ofList h).ascending
    have hlatest := hd.latest
    rw [heardOf_eq] at hj hrest ⊢
    generalize l.index.order = order at hascending hlatest hj hrest ⊢
    cases order with
    | nil => cases hj
    | cons e rest =>
      obtain ⟨n, k⟩ := e
      obtain rfl : j = k := (List.mem_cons.mp hj).resolve_right hrest
      obtain ⟨hplace, hsince⟩ := hlatest n j List.mem_cons_self
      obtain ⟨hn, hplace⟩ := List.getElem?_eq_some_iff.mp hplace
      refine ⟨ids.take n, ids.drop (n + 1), ?_, hsince, fun k hk hne => ?_⟩
      · rw [← hplace, ← List.drop_eq_getElem_cons hn, List.take_append_drop]
      · obtain ⟨⟨m, k'⟩, hmem, rfl⟩ := List.mem_map.mp ((List.mem_cons.mp hk).resolve_left hne)
        have hlt : n < m := (List.pairwise_cons.mp hascending).1 _ hmem
        obtain ⟨hlater, -⟩ := hlatest m k' (List.mem_cons_of_mem _ hmem)
        refine List.mem_of_getElem? (i := m - (n + 1)) ?_
        rw [List.getElem?_drop, Nat.add_sub_cancel' hlt]
        exact hlater

theorem entered_append_singleton :
    l.entered (calls ++ [call]) = l.entered calls ++ (l.run calls).enteredBy call := by
  induction calls generalizing l with
  | nil => simp [entered, run]
  | cons d calls ih =>
    rw [List.cons_append, entered, entered, ih, List.append_assoc]
    rfl

/-! ### What every step keeps -/

/-- What holds of a layer between any two steps. -/
structure Kept (l : CausalLayer) : Prop where
  awaited : ∀ e ∈ l.pending, e.2 ≠ []
  others : ∀ i, ¬ l.Awaits i l.here
  window : l.queue = [] ∨ l.queue.length < l.maxOutstanding
  room : l.early.length ≤ max 1 l.earlyCapacity
  unknown : ∀ i ∈ l.heardOf, i.sender ≠ l.here → l.delivered.contains i = false
  valid : l.delivered.Valid

theorem kept_fresh {window capacity : Nat} : (fresh p window capacity).Kept where
  awaited := by simp [fresh]
  others i := not_awaits_of_idle rfl
  window := .inl rfl
  room := Nat.zero_le _
  unknown := by simp [fresh, heardOf]
  valid := Delivered.valid_empty

theorem step_maxOutstanding (h : l.Step c es m) : m.maxOutstanding = l.maxOutstanding := by
  cases h with
  | drain | start => exact start_maxOutstanding
  | view => exact departAll_maxOutstanding
  | deliver => exact await_maxOutstanding
  | early => exact recordEarly_maxOutstanding
  | init | enqueue | duplicate | release | ignore => rfl

/-- A message is queued while it has room among those that are pending and queued. -/
theorem step_window (h : l.Step c es m) (hl : l.queue = [] ∨ l.queue.length < l.maxOutstanding) :
    m.queue = [] ∨ m.queue.length < m.maxOutstanding := by
  rw [step_maxOutstanding h]
  have hsame : m.queue = l.queue → m.queue = [] ∨ m.queue.length < l.maxOutstanding := by
    intro hq
    rwa [hq]
  cases h with
  | @drain r q idle queued =>
    rw [queued] at hl
    rcases hl with hl | hl
    · cases hl
    · exact .inr (Nat.lt_of_succ_lt hl)
  | enqueue accepts busy =>
    have hroom := accepts.room
    have hpending : 0 < l.pending.length := List.length_pos_iff.mpr busy
    rw [outstanding] at hroom
    right
    rw [List.length_append, List.length_singleton]
    omega
  | start => exact hsame start_queue
  | view => exact hsame departAll_queue
  | deliver => exact hsame await_queue
  | early => exact hsame recordEarly_queue
  | init | duplicate | release | ignore => exact hsame rfl

theorem length_recordEarly (h : l.early.length ≤ max 1 l.earlyCapacity) :
    (l.recordEarly p i).early.length ≤ max 1 l.earlyCapacity := by
  by_cases hi : i ∈ l.heardOf
  · rw [recordEarly_of_mem hi, List.length_map]
    exact h
  · rw [(recordEarly_of_not_mem hi).1, List.length_append, List.length_drop, List.length_singleton]
    split <;> omega

theorem step_room (h : l.Step c es m) (hl : l.early.length ≤ max 1 l.earlyCapacity) :
    m.early.length ≤ max 1 m.earlyCapacity := by
  rw [step_earlyCapacity h]
  cases h with
  | drain | start => simpa using hl
  | view => simpa [moveTo] using hl
  | deliver =>
    rw [await_early]
    exact Nat.le_trans (List.length_filter_le _ _) hl
  | early => exact length_recordEarly hl
  | init | enqueue | duplicate | release | ignore => exact hl

/-- Whoever is awaited is another process. -/
theorem step_others (h : l.Step c es m) (hl : ∀ i, ¬ l.Awaits i l.here) :
    ∀ i, ¬ m.Awaits i m.here := by
  intro i ha
  rw [step_here h] at ha
  rcases step_awaits h ha with hold | ⟨r, -, hp⟩ | ⟨_, _, _, _, -, -, hp⟩
  · exact hl i hold
  · exact (mem_audience.mp hp).2 rfl
  · exact (mem_residual.mp hp).2.1 rfl

/-- A message of another process leaves the table when it is delivered, and does not come in after
that. -/
theorem step_unknown (h : l.Step c es m) (hv : l.delivered.Valid)
    (hl : ∀ i ∈ l.heardOf, i.sender ≠ l.here → l.delivered.contains i = false) :
    ∀ i ∈ m.heardOf, i.sender ≠ m.here → m.delivered.contains i = false := by
  intro i hi hne
  rw [step_here h] at hne
  obtain ⟨e, he, rfl⟩ := List.mem_map.mp hi
  obtain ⟨hsource, hnext⟩ := step_early h he
  rw [Bool.eq_false_iff]
  intro hcontains
  rcases (step_contains h hv).mp hcontains with ⟨hold, -⟩ | ⟨x, hx, hd⟩
  · rcases hsource with ⟨f, hf, hid⟩ | ⟨q, -, hsettled⟩
    · have hnot := hl e.id (hid ▸ List.mem_map_of_mem hf) hne
      rw [hnot] at hold
      cases hold
    · rw [settled, if_neg hne, hold] at hsettled
      cases hsettled
  · exact hne (congrArg MessageId.sender (hnext x hx hd))

theorem step_kept (h : l.Step c es m) (hl : l.Kept) : m.Kept where
  awaited := step_residual_ne_nil h hl.awaited
  others := step_others h hl.others
  window := step_window h hl.window
  room := step_room h hl.room
  unknown := step_unknown h hl.valid hl.unknown
  valid := step_valid h hl.valid

theorem drains_kept (h : Drains l es m) (hl : l.Kept) : m.Kept := by
  induction h with
  | done => exact hl
  | step hs _ ih => exact ih (step_kept hs hl)

theorem kept_after (hl : l.Kept) : (l.after call).Kept := by
  cases h : l.call call with
  | error e => rwa [(unchanged_of_error h).1]
  | ok result =>
    obtain ⟨es, m, fs, hs, hd, -, -⟩ := call_ok h
    rw [after_of_ok h]
    exact drains_kept hd (step_kept hs hl)

/-! ### Runs -/

theorem prompt_after (hl : l.Prompt) : (l.after call).Prompt := by
  cases h : l.call call with
  | error e => rwa [(unchanged_of_error h).1]
  | ok result =>
    rw [after_of_ok h]
    exact prompt_call hl h

theorem drains_bounds (h : Drains l es m) : m.maxOutstanding = l.maxOutstanding ∧
    m.earlyCapacity = l.earlyCapacity := by
  induction h with
  | done => exact ⟨rfl, rfl⟩
  | step hs _ ih => rwa [← step_maxOutstanding hs, ← step_earlyCapacity hs]

theorem bounds_after : (l.after call).maxOutstanding = l.maxOutstanding ∧
    (l.after call).earlyCapacity = l.earlyCapacity := by
  cases h : l.call call with
  | error e =>
    rw [(unchanged_of_error h).1]
    exact ⟨rfl, rfl⟩
  | ok result =>
    obtain ⟨es, m, fs, hs, hd, -, -⟩ := call_ok h
    rw [after_of_ok h, ← step_maxOutstanding hs, ← step_earlyCapacity hs]
    exact drains_bounds hd

/-- What every call keeps holds after any calls. -/
theorem run_induction {P : CausalLayer → Prop} (hafter : ∀ l call, P l → P (after l call))
    (hl : P l) : P (l.run calls) := by
  induction calls generalizing l with
  | nil => exact hl
  | cons call calls ih => exact ih (hafter l call hl)

theorem bounds_run (l : CausalLayer) (calls : List CausalCall) :
    (l.run calls).maxOutstanding = l.maxOutstanding ∧
      (l.run calls).earlyCapacity = l.earlyCapacity := by
  refine run_induction (P := fun m => m.maxOutstanding = l.maxOutstanding ∧
    m.earlyCapacity = l.earlyCapacity) (fun m call hm => ?_) ⟨rfl, rfl⟩
  rwa [bounds_after.1, bounds_after.2]

theorem numbered_run (h : Numbered l.early l.arrivals) :
    Numbered (l.run calls).early (l.run calls).arrivals :=
  run_induction (P := fun m => Numbered m.early m.arrivals) (fun _ _ => numbered_after) h

theorem dated_run (h : Numbered l.early l.arrivals) (hd : l.Dated []) :
    (l.run calls).Dated (l.entered calls) := by
  induction calls using List.reverseRecOn with
  | nil => exact hd
  | append_singleton calls call ih =>
    rw [run_append_singleton, entered_append_singleton]
    exact dated_after (numbered_run h) ih

/-- After any calls: something is pending if anything is queued; everybody awaited is another
process, and somebody is; the queue is shorter than the window; both maps of early acknowledgements
describe the same messages, no more than there is room for; the message that makes room for a new
one is the one that was entered first; and no message of another process is both in the maps and
remembered as delivered. -/
theorem tables_kept (here : Proc) (window capacity : Nat) (calls : List CausalCall) :
    let start := fresh here window capacity
    let l := start.run calls
    let t := start.indexAfter {} calls
    (l.queue ≠ [] → l.pending ≠ []) ∧
    (∀ e ∈ l.pending, e.2 ≠ [] ∧ here ∉ e.2) ∧
    (l.queue = [] ∨ l.queue.length < window) ∧
    (t = l.index ∧ t.Paired ∧ t.entries.length ≤ max 1 capacity) ∧
    (∀ call i j, i ∉ l.heardOf → i ∈ (l.after call).heardOf →
      j ∈ l.heardOf → j ∉ (l.after call).heardOf →
        ∃ past since, start.entered calls = past ++ j :: since ∧ j ∉ since ∧
          ∀ k ∈ l.heardOf, k ≠ j → k ∈ since) ∧
    ∀ i ∈ l.heardOf, i.sender ≠ here → l.delivered.contains i = false := by
  intro start l t
  have hhere : l.here = here := here_run
  have hprompt : l.Prompt :=
    run_induction (P := Prompt) (fun _ _ => prompt_after) fun _ => rfl
  have hkept : l.Kept := run_induction (P := Kept) (fun _ _ => kept_after) kept_fresh
  have hstart : Numbered start.early start.arrivals := Numbered.nil
  have hnumbered : Numbered l.early l.arrivals := numbered_run hstart
  have hdated : l.Dated (start.entered calls) := by
    refine dated_run hstart ⟨rfl, fun n i hmem => ?_⟩
    cases hmem
  have hindex : t = l.index := indexAfter_eq hstart
  obtain ⟨hwindow, hcapacity⟩ := bounds_run start calls
  have hmost := hkept.window
  have hroom := hkept.room
  rw [hwindow] at hmost
  rw [hcapacity] at hroom
  refine ⟨mt hprompt, fun e he => ⟨hkept.awaited e he, fun hmem => ?_⟩, hmost, ⟨hindex, ?_, ?_⟩,
    fun call i j hi hnew hj hgone => oldest_evicted hnumbered hdated hi hnew hj hgone, ?_⟩
  · exact hkept.others e.1 ⟨e.2, he, hhere.symm ▸ hmem⟩
  · rw [hindex]
    exact EarlyIndex.paired_ofList hnumbered
  · rw [hindex, index, EarlyIndex.ofList, List.length_map]
    exact hroom
  · intro i hi hne
    exact hkept.unknown i hi (by rwa [hhere])

end CausalLayer

end Multicast
