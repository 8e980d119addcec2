import Mathlib.Data.List.Induction
import Multicast.Proofs.Causal.Effects

/-! When the processes that a causal layer waits for are members. -/
namespace Multicast.CausalLayer

variable {l m : CausalLayer} {c : CausalCall} {i : MessageId} {p : Proc} {r : CausalRequest}
  {es : List CausalEvent} {calls : List CausalCall}

/-- The layer of a process before it has a member list. -/
def fresh (here : Proc) (window capacity : Nat) : CausalLayer :=
  { here, maxOutstanding := window, earlyCapacity := capacity }

/-- The layer after some calls, one after another. -/
def run (l : CausalLayer) (calls : List CausalCall) : CausalLayer := calls.foldl after l

/-- Every process awaited is another member. -/
def Live (l : CausalLayer) : Prop := ∀ i p, l.Awaits i p → p ∈ l.members ∧ p ≠ l.here

/-- What a call starts goes to members of the list that holds after it. -/
def StartsAmongMembers (l : CausalLayer) (c : CausalCall) : Prop :=
  ∀ i r, .started i r ∈ l.events c → ∀ p ∈ r.destinations, p ≠ l.here → p ∈ (l.after c).members

/-- A layer without a list awaits nobody and has nothing to send. -/
def Unused (l : CausalLayer) : Prop :=
  l.initialized = false → l.pending = [] ∧ l.queue = []

theorem step_unused {c : Option CausalCall} (h : l.Step c es m) (hl : l.Unused) : m.Unused := by
  intro hm
  cases h with
  | drain idle queued =>
    have hi : l.initialized = false := by simpa using hm
    simp [(hl hi).2] at queued
  | init => cases hm
  | view ready => simp [moveTo, ready] at hm
  | start accepts | enqueue accepts => simp [accepts.ready] at hm
  | deliver hears | duplicate hears | release hears | ignore hears | early hears =>
    simp [hears.ready, release] at hm

/-- Whoever becomes awaited without a start is another member. -/
theorem step_live {c : Option CausalCall} (h : l.Step c es m) (hu : l.Unused)
    (hl : l.Awaits i p → p ∈ l.members ∧ p ≠ l.here) (ha : m.Awaits i p) :
    (p ∈ m.members ∧ p ≠ m.here) ∨ ∃ r, .started i r ∈ es ∧ p ∈ l.audience r := by
  rcases step_awaits h ha with hold | hs | ⟨source, ds, payload, informed, rfl, he, hp⟩
  · left
    obtain ⟨hmem, hne⟩ := hl hold
    refine ⟨?_, by rwa [step_here h]⟩
    cases h with
    | init call fresh => exact (not_awaits_of_idle (hu fresh).1 hold).elim
    | @view members =>
      have hp := (awaits_departAll.mp ha).2
      rw [List.mem_filter, not_and, decide_eq_true_eq, not_not] at hp
      simpa [moveTo] using hp hmem
    | drain | start => simpa using hmem
    | deliver | early => simpa using hmem
    | enqueue | duplicate | release | ignore => exact hmem
  · exact Or.inr hs
  · obtain ⟨-, hne, hm, -⟩ := mem_residual.mp hp
    cases h with
    | deliver => exact Or.inl ⟨by simpa using hm, by simpa using hne⟩
    | duplicate => simp at he
    | init call => simp at call

/-! ### The queue -/

theorem drains_here (h : Drains l es m) : m.here = l.here := by
  induction h with
  | done => rfl
  | step hs _ ih => rw [ih, step_here hs]

theorem step_none_members (h : l.Step none es m) : m.members = l.members := by
  cases h with
  | drain => exact start_members

theorem drains_members (h : Drains l es m) : m.members = l.members := by
  induction h with
  | done => rfl
  | step hs _ ih => rw [ih, step_none_members hs]

theorem drains_unused (h : Drains l es m) (hl : l.Unused) : m.Unused := by
  induction h with
  | done => exact hl
  | step hs _ ih => exact ih (step_unused hs hl)

/-- Nothing more is started once somebody is awaited. -/
theorem drains_of_awaits (h : Drains l es m) (ha : l.Awaits i p) : m = l ∧ es = [] := by
  cases h with
  | done => exact ⟨rfl, rfl⟩
  | step hs _ =>
    cases hs with
    | drain idle => exact (not_awaits_of_idle idle ha).elim

theorem awaits_of_started {c : Option CausalCall} (h : l.Step c es m) (he : .started i r ∈ es)
    (hp : p ∈ l.audience r) : m.Awaits i p := by
  obtain ⟨-, -, -, -, ha, -⟩ := step_started h he
  exact (ha i p).mpr ⟨rfl, hp⟩

/-- The destinations of a message are awaited when the call that starts it has ended. -/
theorem awaits_of_drains (h : Drains l es m) (he : .started i r ∈ es) (hp : p ∈ l.audience r) :
    m.Awaits i p := by
  induction h with
  | done => simp at he
  | step hs hd ih =>
    rcases List.mem_append.mp he with he | he
    · have ha := awaits_of_started hs he hp
      rwa [(drains_of_awaits hd ha).1]
    · exact ih he (by simpa [step_here hs] using hp)

theorem started_of_drains (h : Drains l es m) (ha : m.Awaits i p) :
    l.Awaits i p ∨ ∃ r, .started i r ∈ es ∧ p ∈ l.audience r := by
  induction h with
  | done => exact Or.inl ha
  | step hs hd ih =>
    rcases ih ha with ha | ⟨r, he, hp⟩
    · rcases step_awaits hs ha with ha | ⟨r, he, hp⟩ | ⟨_, _, _, _, hc, _⟩
      · exact Or.inl ha
      · exact Or.inr ⟨r, List.mem_append_left _ he, hp⟩
      · cases hc
    · exact Or.inr ⟨r, List.mem_append_right _ he, by simpa [step_here hs] using hp⟩

/-! ### Calls and runs -/

theorem after_of_ok {o : CausalOutput} (h : l.call c = .ok (o, m)) : l.after c = m := by
  simp only [after, h]

theorem unchanged_of_error {e : CausalError} (h : l.call c = .error e) :
    l.after c = l ∧ l.events c = [] := by
  simp only [after, events, h, and_self]

theorem unused_after (hl : l.Unused) : (l.after c).Unused := by
  cases h : l.call c with
  | error e => rwa [(unchanged_of_error h).1]
  | ok result =>
    obtain ⟨es, m, fs, hs, hd, -, -⟩ := call_ok h
    rw [after_of_ok h]
    exact drains_unused hd (step_unused hs hl)

/-- One call keeps everyone awaited a member exactly if it starts messages among members only. -/
theorem live_after (hu : l.Unused) (hl : l.Live) : (l.after c).Live ↔ l.StartsAmongMembers c := by
  cases h : l.call c with
  | error e =>
    obtain ⟨hsame, hnone⟩ := unchanged_of_error h
    simp [StartsAmongMembers, hsame, hnone, hl]
  | ok result =>
    obtain ⟨o, n⟩ := result
    obtain ⟨es, m, fs, hs, hd, he, -⟩ := call_ok h
    rw [StartsAmongMembers, after_of_ok h, he]
    constructor
    · intro hlive i r hr p hp hne
      have hp : p ∈ l.audience r := mem_audience.mpr ⟨hp, hne⟩
      refine (hlive i p ?_).1
      rcases List.mem_append.mp hr with hr | hr
      · have ha := awaits_of_started hs hr hp
        rwa [(drains_of_awaits hd ha).1]
      · exact awaits_of_drains hd hr (by simpa [step_here hs] using hp)
    · intro hstarts i p ha
      have hstarted : ∀ r, .started i r ∈ es ++ fs → p ∈ l.audience r →
          p ∈ n.members ∧ p ≠ n.here := by
        intro r hr hp
        obtain ⟨hp, hne⟩ := mem_audience.mp hp
        exact ⟨hstarts i r hr p hp hne, by rwa [drains_here hd, step_here hs]⟩
      rcases started_of_drains hd ha with ha | ⟨r, hr, hp⟩
      · rcases step_live hs hu (hl i p) ha with hm | ⟨r, hr, hp⟩
        · rwa [drains_here hd, drains_members hd]
        · exact hstarted r (List.mem_append_left _ hr) hp
      · exact hstarted r (List.mem_append_right _ hr) (by simpa [step_here hs] using hp)

theorem run_append_singleton : l.run (calls ++ [c]) = (l.run calls).after c := by
  simp [run, List.foldl_append]

theorem unused_fresh {window capacity : Nat} : (fresh p window capacity).Unused :=
  fun _ => ⟨rfl, rfl⟩

theorem unused_run (hl : l.Unused) : (l.run calls).Unused := by
  induction calls generalizing l with
  | nil => exact hl
  | cons c calls ih => exact ih (l := l.after c) (unused_after hl)

theorem live_fresh {window capacity : Nat} : (fresh p window capacity).Live :=
  fun _ _ ha => (not_awaits_of_idle rfl ha).elim

/-- Nobody but other members is ever awaited exactly if all messages are started among members. -/
theorem live_throughout_iff (here : Proc) (window capacity : Nat) (calls : List CausalCall) :
    (∀ cs, cs <+: calls → ((fresh here window capacity).run cs).Live) ↔
      ∀ cs c, cs ++ [c] <+: calls →
        ((fresh here window capacity).run cs).StartsAmongMembers c := by
  constructor
  · intro hlive cs c hc
    have hl := hlive cs ((List.prefix_append cs [c]).trans hc)
    have ha := hlive _ hc
    rw [run_append_singleton] at ha
    exact (live_after (unused_run unused_fresh) hl).mp ha
  · intro hstarts cs
    induction cs using List.reverseRecOn with
    | nil => exact fun _ => live_fresh
    | append_singleton cs c ih =>
      intro hc
      have hl := ih ((List.prefix_append cs [c]).trans hc)
      rw [run_append_singleton]
      exact (live_after (unused_run unused_fresh) hl).mpr (hstarts cs c hc)

/-- A member to which a message waits in the queue departs before the message is started. -/
theorem departed_awaited : ¬ ∀ (here : Proc) (window capacity : Nat) (calls : List CausalCall),
    ((fresh here window capacity).run calls).Live := by
  intro h
  let p (n : UInt16) : Proc := ⟨"h", n, 0⟩
  have hl := h (p 1) 2 2 [.init [p 1, p 2, p 3], .send [] [p 2], .send [] [p 3],
    .view [p 1, p 2], .deliver (p 2) (.ack ⟨p 1, 0⟩)] ⟨p 1, 1⟩ (p 3)
    ⟨[p 3], by decide, by decide⟩
  exact absurd hl.1 (by decide)

end Multicast.CausalLayer
