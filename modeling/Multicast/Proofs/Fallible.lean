import Mathlib.Data.List.Forall2

/-! Operations that answer or fail. One that is put together from others answers if they all do. -/
namespace Multicast.Fallible

variable {α β ε ε' : Type}

theorem bind_eq_ok {x : Except ε α} {f : α → Except ε β} {b : β} :
    (x >>= f) = .ok b ↔ ∃ a, x = .ok a ∧ f a = .ok b := by
  cases x with
  | error e => simp [bind, Except.bind]
  | ok a => simp [bind, Except.bind]

theorem mapError_eq_ok {x : Except ε α} {f : ε → ε'} {a : α} :
    x.mapError f = .ok a ↔ x = .ok a := by
  cases x <;> simp [Except.mapError]

/-- What fails under a condition goes on without it. -/
theorem throwIf_eq_ok {p : Prop} [Decidable p] {e : ε} {r : Unit → Except ε α} {x : Except ε α}
    {a : α} : (if p then (throw e >>= r) else x) = .ok a ↔ ¬ p ∧ x = .ok a := by
  by_cases h : p <;> simp [h, throw, throwThe, MonadExceptOf.throw, bind, Except.bind]

/-- What a list is turned into, element by element. -/
theorem mapM_eq_ok {f : α → Except ε β} {as : List α} {bs : List β} :
    as.mapM f = .ok bs ↔ List.Forall₂ (fun a b => f a = .ok b) as bs := by
  induction as generalizing bs with
  | nil => cases bs <;> simp [pure, Except.pure]
  | cons a as ih =>
    rw [List.mapM_cons, bind_eq_ok]
    cases bs with
    | nil => simp [bind_eq_ok, pure, Except.pure]
    | cons b bs => simp [bind_eq_ok, pure, Except.pure, ih]

end Multicast.Fallible
