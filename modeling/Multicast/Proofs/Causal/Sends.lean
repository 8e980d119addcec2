import Multicast.Proofs.Causal.Ledger
import Multicast.Proofs.Causal.Runs

/-! What one causal layer puts out over a run: its own messages, each with its number, in the
order in which they were accepted. -/
namespace Multicast

/-- The packet brings a message. -/
def CausalPacket.isMessage : CausalPacket → Bool
  | .send .. => true
  | .ack _ => false

/-- The packets that carry a message to its destinations. Its sender is sent none. -/
def CausalRequest.copies (r : CausalRequest) (id : MessageId) : List (Outgoing CausalPacket) :=
  (r.destinations.filter (· ≠ id.sender)).map fun p => ⟨p, .send id r.destinations r.payload⟩

namespace CausalLayer
open CausalEvent (outputs requests)

variable {l m n : CausalLayer} {c : Option CausalCall} {i : MessageId} {p : Proc}
  {r : CausalRequest} {rs started : List CausalRequest} {o : CausalOutput}
  {es fs : List CausalEvent} {calls : List CausalCall}

/-- The messages that some calls hand over without being refused, oldest first. -/
def accepted (l : CausalLayer) : List CausalCall → List CausalRequest
  | [] => []
  | c :: calls => (if (l.call c).isOk then c.requests else []) ++ (l.after c).accepted calls

/-- The messages of the local process that are pending. -/
def ownPending (l : CausalLayer) : List MessageId := l.pending.keys.filter (·.sender = l.here)

/-- The call brings no message that bears the name of the local process. -/
def Foreign (here : Proc) (c : CausalCall) : Prop :=
  ∀ source id destinations payload, c = .deliver source (.send id destinations payload) →
    id.sender ≠ here

instance {here : Proc} : DecidablePred (Foreign here) := fun c =>
  match c with
  | .deliver _ (.send id _ _) => decidable_of_iff (id.sender ≠ here) <| by
      constructor
      · rintro h _ _ _ _ ⟨⟩
        exact h
      · exact fun h => h _ _ _ _ rfl
  | .deliver _ (.ack _) | .init _ | .send .. | .view _ => isTrue fun _ _ _ _ h => nomatch h

/-- The started messages are what a layer has put out under its own name: the `k`-th bears the
number `k`. -/
structure Sent (l : CausalLayer) (started : List CausalRequest) (o : CausalOutput) : Prop where
  count : started.length = l.nextSequence
  /-- One packet for each destination, message after message. -/
  packets : o.sends.filter (·.packet.isMessage) =
    started.zipIdx.flatMap fun (r, k) => r.copies ⟨l.here, k⟩
  /-- The local process delivers what it is a destination of. -/
  deliveries : o.delivered.filter (·.source = l.here) =
    (started.filter (l.here ∈ ·.destinations)).map (⟨l.here, ·.payload⟩)
  /-- All are completed, in order, but for the last if it is pending. -/
  completed : o.completed ++ l.ownPending = (List.range l.nextSequence).map (⟨l.here, ·⟩)
  single : l.ownPending.length ≤ 1

/-! ### What a step puts out -/

theorem copies_filter : (r.copies i).filter (·.packet.isMessage) = r.copies i := by
  rw [List.filter_eq_self]
  intro x hx
  obtain ⟨p, -, rfl⟩ := List.mem_map.mp hx
  rfl

theorem acks_filter {ps : List Proc} :
    (ps.map fun p => (⟨p, .ack i⟩ : Outgoing CausalPacket)).filter (·.packet.isMessage) = [] := by
  rw [List.filter_eq_nil_iff]
  intro x hx
  obtain ⟨p, -, rfl⟩ := List.mem_map.mp hx
  simp [CausalPacket.isMessage]

theorem outputs_moved {members : List Proc} (h : o = { completed := o.completed }) :
    outputs (.moved members :: completions o) =
      { directives := [members], completed := o.completed } := by
  rw [outputs, outputs_completions h, h]
  rfl

/-- A step that starts no message puts out none, and delivers none of the local process. -/
theorem step_silent (h : l.Step c es m) (hn : requests es = []) :
    (outputs es).sends.filter (·.packet.isMessage) = [] ∧
      ((∀ call ∈ c, Foreign l.here call) →
        (outputs es).delivered.filter (·.source = l.here) = []) := by
  cases h with
  | drain | start => simp [requests_startEvents] at hn
  | view =>
    rw [outputs_moved moveTo_output]
    exact ⟨rfl, fun _ => rfl⟩
  | release =>
    rw [outputs_completions rfl]
    exact ⟨rfl, fun _ => rfl⟩
  | deliver =>
    constructor
    · simpa [outputs, CausalEvent.output] using acks_filter
    · intro hc
      have hne := hc _ rfl _ _ _ _ rfl
      simp [outputs, CausalEvent.output, hne]
  | early =>
    rw [outputs_evictions]
    exact ⟨rfl, fun _ => rfl⟩
  | init | enqueue | duplicate | ignore => exact ⟨rfl, fun _ => rfl⟩

/-- A step that starts a message puts out just that message. -/
theorem step_starts (h : l.Step c es m) (hr : requests es = [r]) :
    l.pending = [] ∧ outputs es = (l.start r).1 := by
  rcases step_requests h with ⟨hn, -⟩ | ⟨s, hs, he, -⟩
  · simp [hn] at hr
  · obtain rfl : s = r := by simpa [hs] using hr
    obtain ⟨hidle, -, rfl, -⟩ := step_started h he
    exact ⟨hidle, outputs_startEvents⟩

theorem start_packets : (l.start r).1.sends.filter (·.packet.isMessage) = r.copies l.nextId := by
  rw [start_fst, List.filter_append]
  change (r.copies l.nextId).filter _ ++ _ = _
  rw [copies_filter]
  split
  · rw [acks_filter, List.append_nil]
  · exact List.append_nil _

theorem start_deliveries : (l.start r).1.delivered.filter (·.source = l.here) =
    if l.here ∈ r.destinations then [⟨l.here, r.payload⟩] else [] := by
  rw [start_fst]
  by_cases hh : l.here ∈ r.destinations <;> simp [hh]

/-! ### What a step completes -/

theorem completed_departAll {ps : List Proc} (h : i ∈ (l.departAll ps).1.completed) :
    i.sender = l.here := by
  induction ps generalizing l with
  | nil => simp [departAll] at h
  | cons p ps ih =>
    change i ∈ (l.depart p).1.completed ++ ((l.depart p).2.departAll ps).1.completed at h
    rcases List.mem_append.mp h with h | h
    · exact of_decide_eq_true (List.mem_filter.mp h).2
    · exact ih (l := (l.depart p).2) h

theorem step_completed_own (h : l.Step c es m) (hi : i ∈ (outputs es).completed) :
    i.sender = l.here := by
  cases h with
  | drain | start =>
    rw [outputs_startEvents, start_fst] at hi
    dsimp only at hi
    split at hi
    · rw [List.mem_singleton.mp hi]
      rfl
    · simp at hi
  | @view members =>
    rw [outputs_moved moveTo_output] at hi
    exact completed_departAll (l := { l with members }) hi
  | release =>
    rw [outputs_completions rfl] at hi
    exact of_decide_eq_true (List.mem_filter.mp hi).2
  | early => simp [outputs_evictions] at hi
  | init | deliver => simp [outputs, CausalEvent.output] at hi
  | enqueue | duplicate | ignore => simp [outputs] at hi

theorem count_ownPending (hi : i.sender = l.here) : l.ownPending.count i = l.holds i :=
  List.count_filter (by simpa using hi)

theorem sender_of_ownPending (hi : i ∈ l.ownPending) : i.sender = l.here :=
  of_decide_eq_true (List.mem_filter.mp hi).2

theorem issued_step (h : l.Step c es m) (hi : i.sender = l.here) :
    m.issued i = l.issued i + ((requests es).map fun _ => l.nextId).count i := by
  rcases step_requests h with ⟨hes, hn⟩ | ⟨r, hes, -, hn⟩
  · rw [issued, issued, hn, hes]
    rfl
  · rw [issued_succ hn hi, hes]
    simp [List.count_singleton]

/-- What was pending or is started is completed or stays pending. -/
theorem step_completed_perm (h : l.Step c es m) (hc : ∀ call ∈ c, Foreign l.here call) :
    ((outputs es).completed ++ m.ownPending).Perm
      (l.ownPending ++ (requests es).map fun _ => l.nextId) := by
  rw [List.perm_iff_count]
  intro i
  rw [List.count_append, List.count_append]
  by_cases hi : i.sender = l.here
  · have hholds := step_holds h hi fun source destinations payload hcall =>
      hc _ hcall _ _ _ _ rfl hi
    have hissued := issued_step h hi
    rw [CausalEvent.count_outputs_completed, count_ownPending hi,
      count_ownPending (hi.trans (step_here h).symm)]
    omega
  · have hcompleted : i ∉ (outputs es).completed := fun hm => hi (step_completed_own h hm)
    have hafter : i ∉ m.ownPending := fun hm => hi ((sender_of_ownPending hm).trans (step_here h))
    have hbefore : i ∉ l.ownPending := fun hm => hi (sender_of_ownPending hm)
    have hnext : i ∉ (requests es).map fun _ => l.nextId := by
      intro hm
      obtain ⟨-, -, rfl⟩ := List.mem_map.mp hm
      exact hi rfl
    rw [List.count_eq_zero_of_not_mem hcompleted, List.count_eq_zero_of_not_mem hafter,
      List.count_eq_zero_of_not_mem hbefore, List.count_eq_zero_of_not_mem hnext]

theorem eq_of_perm {α : Type} {xs ys : List α} (h : xs.Perm ys) (hy : ys.length ≤ 1) : xs = ys := by
  match ys, hy with
  | [], _ => exact h.eq_nil
  | [_], _ => exact List.perm_singleton.mp h

/-- At most one message of the local process is pending, so that they are completed in order. -/
theorem step_completed (h : l.Step c es m) (hc : ∀ call ∈ c, Foreign l.here call)
    (hl : l.ownPending.length ≤ 1) :
    (outputs es).completed ++ m.ownPending =
      l.ownPending ++ (requests es).map (fun _ => l.nextId) ∧ m.ownPending.length ≤ 1 := by
  have hshort : (l.ownPending ++ (requests es).map fun _ => l.nextId).length ≤ 1 := by
    rcases step_requests h with ⟨hes, -⟩ | ⟨r, hes, -⟩
    · simpa [hes] using hl
    · have hidle := (step_starts h hes).1
      simp [hes, ownPending, Table.keys, hidle]
  have heq := eq_of_perm (step_completed_perm h hc) hshort
  refine ⟨heq, ?_⟩
  have hlength := congrArg List.length heq
  rw [List.length_append] at hlength
  omega

/-! ### Runs -/

theorem sent_step (h : l.Step c es m) (hc : ∀ call ∈ c, Foreign l.here call)
    (hl : l.Sent started o) : m.Sent (started ++ requests es) (o ++ outputs es) where
  count := by
    rw [List.length_append, hl.count]
    rcases step_requests h with ⟨hes, hn⟩ | ⟨r, hes, -, hn⟩
    · rw [hes, hn]
      rfl
    · rw [hes, hn]
      rfl
  packets := by
    rw [Output.append_sends, List.filter_append, hl.packets, step_here h, List.zipIdx_append,
      List.flatMap_append]
    congr 1
    rcases step_requests h with ⟨hes, -⟩ | ⟨r, hes, -⟩
    · rw [(step_silent h hes).1, hes]
      rfl
    · rw [(step_starts h hes).2, start_packets, hes, hl.count]
      simp [nextId]
  deliveries := by
    rw [Output.append_delivered, List.filter_append, step_here h, hl.deliveries,
      List.filter_append, List.map_append]
    congr 1
    rcases step_requests h with ⟨hes, -⟩ | ⟨r, hes, -⟩
    · rw [(step_silent h hes).2 hc, hes]
      rfl
    · rw [(step_starts h hes).2, start_deliveries, hes]
      by_cases hh : l.here ∈ r.destinations <;> simp [hh]
  completed := by
    rw [Output.append_completed, List.append_assoc, (step_completed h hc hl.single).1,
      ← List.append_assoc, hl.completed, step_here h]
    rcases step_requests h with ⟨hes, hn⟩ | ⟨r, hes, -, hn⟩
    · rw [hes, hn]
      exact List.append_nil _
    · rw [hes, hn, List.range_succ, List.map_append]
      rfl
  single := (step_completed h hc hl.single).2

theorem sent_drains (h : Drains l es m) (hl : l.Sent started o) :
    m.Sent (started ++ requests es) (o ++ outputs es) := by
  induction h generalizing started o with
  | done =>
    rw [outputs, Output.append_empty]
    exact (List.append_nil started).symm ▸ hl
  | step hs _ ih =>
    rw [CausalEvent.requests_append, ← List.append_assoc, outputs_append, ← Output.append_assoc]
    exact ih (sent_step hs (fun _ hnone => by cases hnone) hl)

theorem sent_call {c : CausalCall} (h : l.call c = .ok (o, m)) (hc : Foreign l.here c)
    {o₀ : CausalOutput} (hl : l.Sent started o₀) :
    m.Sent (started ++ requests (l.events c)) (o₀ ++ o) := by
  obtain ⟨es, m', fs, hs, hd, he, ho⟩ := call_ok h
  rw [he, ← ho, CausalEvent.requests_append, ← List.append_assoc, outputs_append,
    ← Output.append_assoc]
  exact sent_drains hd (sent_step hs (by simpa using hc) hl)

/-- What is accepted in a run is started in the run or still queued at its end. -/
theorem sent_run {o₀ : CausalOutput} (hc : ∀ c ∈ calls, Foreign l.here c) (hp : l.Prompt)
    (hl : l.Sent started o₀) : ∃ later,
      (l.run calls).Sent (started ++ later) (o₀ ++ l.output calls) ∧
      l.queue ++ l.accepted calls = later ++ (l.run calls).queue := by
  induction calls generalizing l started o₀ with
  | nil =>
    refine ⟨[], ?_, List.append_nil _⟩
    rw [List.append_nil, output, Output.append_empty]
    exact hl
  | cons c calls ih =>
    have hfirst := hc c List.mem_cons_self
    have hrest : ∀ c ∈ calls, Foreign l.here c := fun d hd => hc d (List.mem_cons_of_mem _ hd)
    cases h : l.call c with
    | error e =>
      have hafter := (unchanged_of_error h).1
      have ho : l.outputOf c = {} := by simp only [outputOf, h]
      have ha : (l.call c).isOk = false := by simp [h, Except.isOk, Except.toBool]
      rw [output, accepted, ho, ha, run_cons, hafter, Output.empty_append]
      exact ih hrest hp hl
    | ok result =>
      obtain ⟨o, m⟩ := result
      have hafter := after_of_ok h
      have ho : l.outputOf c = o := by simp only [outputOf, h]
      have ha : (l.call c).isOk = true := by simp [h, Except.isOk, Except.toBool]
      have hhere : m.here = l.here := hafter ▸ here_after
      obtain ⟨later, hsent, hqueue⟩ := ih (hhere ▸ hrest) (prompt_call hp h) (sent_call h hfirst hl)
      refine ⟨requests (l.events c) ++ later, ?_, ?_⟩
      · rw [← List.append_assoc, output, ho, ← Output.append_assoc, run_cons, hafter]
        exact hsent
      · rw [accepted, ha, if_pos rfl, hafter, ← List.append_assoc, ← call_queued h hp, run_cons,
          hafter, List.append_assoc, hqueue, List.append_assoc]

theorem sent_fresh {window capacity : Nat} : (fresh p window capacity).Sent [] {} where
  count := rfl
  packets := rfl
  deliveries := rfl
  completed := rfl
  single := Nat.zero_le _

theorem nodup_of_accepted (h : r ∈ l.accepted calls) : r.destinations.Nodup := by
  induction calls generalizing l with
  | nil => simp [accepted] at h
  | cons c calls ih =>
    rcases List.mem_append.mp h with h | h
    · split at h
      · cases c with
        | send payload destinations =>
          rw [List.mem_singleton.mp h]
          exact Proc.nodup_firsts
        | init | deliver | view => simp [CausalCall.requests] at h
      · simp at h
    · exact ih h

/-- The messages that are accepted are started in the order of acceptance, and the rest is queued.
What is put out for them is what is due to each that is started. -/
theorem accepted_sent_in_order (here : Proc) (window capacity : Nat) (calls : List CausalCall)
    (foreign : ∀ c ∈ calls, Foreign here c) :
    ∃ started, (fresh here window capacity).accepted calls =
        started ++ ((fresh here window capacity).run calls).queue ∧
      (∀ r ∈ started, r.destinations.Nodup) ∧
      ((fresh here window capacity).run calls).Sent started
        ((fresh here window capacity).output calls) := by
  obtain ⟨started, hsent, hqueue⟩ := sent_run (l := fresh here window capacity) foreign
    (fun _ => rfl) sent_fresh
  have haccepted : (fresh here window capacity).accepted calls = started ++ _ := hqueue
  refine ⟨started, haccepted, ?_, ?_⟩
  · intro r hr
    have hmem : r ∈ (fresh here window capacity).accepted calls := by
      rw [haccepted]
      exact List.mem_append_left _ hr
    exact nodup_of_accepted hmem
  · rwa [List.nil_append, Output.empty_append] at hsent

/-- Messages are started when they are accepted, acknowledged, freed by a departure, and settled at
once for want of other destinations. -/
def fourStarts (a b c : Proc) : List CausalCall :=
  [.init [a, b, c], .send [1] [b, a, b], .send [2] [c, a], .send [3] [a],
    .deliver b (.send ⟨b, 0⟩ [a] [9]), .deliver b (.ack ⟨a, 0⟩), .view [a, b], .send [4] [c],
    .send [5] [b], .send [6] [a, b]]

theorem fourStarts_in_order : let a : Proc := ⟨"a", 1, 0⟩
    let b : Proc := ⟨"b", 1, 0⟩
    let c : Proc := ⟨"c", 1, 0⟩
    let l := (fresh a 8 8).run (fourStarts a b c)
    let o := (fresh a 8 8).output (fourStarts a b c)
    (∀ call ∈ fourStarts a b c, Foreign a call) ∧
      l.Sent [⟨[1], [b, a]⟩, ⟨[2], [c, a]⟩, ⟨[3], [a]⟩, ⟨[5], [b]⟩] o ∧
      l.queue = [⟨[6], [a, b]⟩] ∧ o.completed = [⟨a, 0⟩, ⟨a, 1⟩, ⟨a, 2⟩] := by
  intro a b c l o
  have hforeign : ∀ call ∈ fourStarts a b c, Foreign a call := by decide
  obtain ⟨started, haccepted, -, hsent⟩ :=
    accepted_sent_in_order a 8 8 (fourStarts a b c) hforeign
  have hqueue : l.queue = [⟨[6], [a, b]⟩] := by decide
  have hall : (fresh a 8 8).accepted (fourStarts a b c) =
      [⟨[1], [b, a]⟩, ⟨[2], [c, a]⟩, ⟨[3], [a]⟩, ⟨[5], [b]⟩] ++ l.queue := by decide
  obtain rfl := List.append_cancel_right (hall.symm.trans haccepted)
  exact ⟨hforeign, hsent, hqueue, by decide⟩

end CausalLayer

end Multicast
