/-! Operations that change a state in place, one statement after another. Where one fails, what the
statements before have changed stays changed. -/
namespace Multicast

namespace InPlace

variable {ε ε' σ κ α : Type} {s : σ}

/-- How an operation ends that is to answer like this, and to leave the state alone if it fails. -/
def outcome (s : σ) : Except ε (α × σ) → EStateM.Result ε σ α
  | .ok (a, s') => .ok a s'
  | .error e => .error e s

/-- The state that an operation leaves, whether it has failed or not. -/
def leaves : EStateM.Result ε σ α → σ
  | .ok _ s => s
  | .error _ s => s

/-- The state after some operations, one after another. One that fails is followed by the next. -/
def runAll (perform : κ → EStateM ε σ α) (s : σ) (calls : List κ) : σ :=
  calls.foldl (fun s c => leaves ((perform c).run s)) s

@[simp] theorem outcome_ok {r : α × σ} : outcome s (.ok r : Except ε (α × σ)) = .ok r.1 r.2 := rfl

/-- An operation that fails has changed nothing. -/
theorem eq_of_error {r : Except ε (α × σ)} {e : ε} {s' : σ} (h : outcome s r = .error e s') :
    s' = s ∧ r = .error e := by
  cases r with
  | ok r => cases h
  | error e => cases h; exact ⟨rfl, rfl⟩

theorem run_adaptExcept {x : EStateM ε σ α} {r : Except ε (α × σ)} (f : ε → ε')
    (h : x.run s = outcome s r) : (EStateM.adaptExcept f x).run s = outcome s (r.mapError f) := by
  rw [EStateM.run_adaptExcept, h]
  cases r <;> rfl

/-- To change the state once for each element of a list is to change it once by all of them. -/
theorem run_forM_modify {β : Type} (change : σ → β → σ) (xs : List β) :
    (forM xs fun x => (modify (change · x) : EStateM ε σ PUnit)).run s =
      .ok ⟨⟩ (xs.foldl change s) := by
  induction xs generalizing s with
  | nil => rfl
  | cons x xs ih =>
    rw [List.forM_cons, EStateM.run_bind, EStateM.run_modify]
    exact ih

/-- Operations that end as `call` says, as long as an invariant of theirs holds, leave what it
says. -/
theorem runAll_eq {perform : κ → EStateM ε σ α} {call : σ → κ → Except ε (α × σ)}
    {after : σ → κ → σ} {Inv : σ → Prop}
    (hcall : ∀ s c, Inv s → (perform c).run s = outcome s (call s c))
    (hafter : ∀ s c, leaves (outcome s (call s c)) = after s c)
    (hinv : ∀ s c, Inv s → Inv (after s c)) (hs : Inv s) (calls : List κ) :
    runAll perform s calls = calls.foldl after s := by
  induction calls generalizing s with
  | nil => rfl
  | cons c calls ih =>
    rw [runAll, List.foldl_cons, List.foldl_cons, hcall s c hs, hafter]
    exact ih (hinv s c hs)

end InPlace

end Multicast
