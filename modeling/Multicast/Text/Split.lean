/-! Cutting texts at separators. -/
namespace Multicast.Split

/-- The parts before and after the last separator. -/
def last? (sep : Char) : List Char → Option (List Char × List Char)
  | [] => none
  | c :: cs =>
    match last? sep cs with
    | some (before, after) => some (c :: before, after)
    | none => if c = sep then some ([], cs) else none

theorem last?_eq_none_iff {sep : Char} {cs : List Char} : last? sep cs = none ↔ sep ∉ cs := by
  induction cs with
  | nil => simp [last?]
  | cons c cs ih =>
    rw [last?]
    cases h : last? sep cs with
    | none =>
      have hs := ih.mp h
      by_cases hc : c = sep
      · simp [hc]
      · simp [hc, hs, Ne.symm hc]
    | some p =>
      have : sep ∈ cs := by
        apply Decidable.byContradiction
        intro hn
        simp [ih.mpr hn] at h
      simp [this]

theorem last?_append_cons {sep : Char} {before after : List Char} (h : sep ∉ after) :
    last? sep (before ++ sep :: after) = some (before, after) := by
  induction before with
  | nil => simp [last?, last?_eq_none_iff.mpr h]
  | cons c cs ih => simp [last?, ih]

theorem eq_of_last? {sep : Char} {cs before after : List Char}
    (h : last? sep cs = some (before, after)) : cs = before ++ sep :: after ∧ sep ∉ after := by
  induction cs generalizing before with
  | nil => simp [last?] at h
  | cons c cs ih =>
    rw [last?] at h
    cases hl : last? sep cs with
    | none =>
      rw [hl] at h
      by_cases hc : c = sep <;> simp_all [last?_eq_none_iff]
    | some p =>
      obtain ⟨b, a⟩ := p
      rw [hl] at h
      simp only [Option.some.injEq, Prod.mk.injEq] at h
      obtain ⟨rfl, rfl⟩ := h
      obtain ⟨he, hn⟩ := ih hl
      exact ⟨by rw [he]; rfl, hn⟩

/-- The pieces between separators. -/
def pieces (sep : Char) : List Char → List (List Char)
  | [] => [[]]
  | c :: cs =>
    match pieces sep cs with
    | [] => [[]]
    | p :: ps => if c = sep then [] :: p :: ps else (c :: p) :: ps

end Multicast.Split
