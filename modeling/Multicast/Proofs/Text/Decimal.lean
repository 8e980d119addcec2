import Multicast.Text.Decimal

/-! The texts that are read as a decimal number: digits, with or without a plus sign and zeros in
front. The digits that a number is written with are among them. -/
namespace Multicast.Decimal

variable {top n : Nat} {c : Char} {cs ds : List Char}

/-- A text consists of one digit or more, and `n` is what they stand for. -/
structure Digits (ds : List Char) (n : Nat) : Prop where
  ne_nil : ds ≠ []
  digits : ∀ d ∈ ds, d.isDigit = true
  value : Nat.ofDigitChars 10 ds 0 = n

/-- A text spells a number: digits, with at most one plus sign in front of them. -/
def Spells (cs : List Char) (n : Nat) : Prop :=
  ∃ sign ds, (sign = [] ∨ sign = ['+']) ∧ Digits ds n ∧ cs = sign ++ ds

theorem digits?_eq_some_iff : digits? ds = some n ↔ Digits ds n := by
  unfold digits?
  split
  · rename_i h
    rw [List.all_eq_true] at h
    constructor
    · intro hn
      exact ⟨h.1, h.2, Option.some.inj hn⟩
    · intro hd
      exact congrArg some hd.value
  · rename_i h
    constructor
    · intro hn
      cases hn
    · intro hd
      exact (h ⟨hd.ne_nil, List.all_eq_true.mpr hd.digits⟩).elim

/-- No digit is a plus sign. -/
theorem Digits.not_plus (h : Digits ('+' :: cs) n) : False :=
  absurd (h.digits '+' List.mem_cons_self) (by decide)

theorem spells_plus : Spells ('+' :: cs) n ↔ Digits cs n := by
  constructor
  · rintro ⟨sign, ds, rfl | rfl, hd, hcs⟩
    · rw [List.nil_append] at hcs
      exact (hcs ▸ hd).not_plus.elim
    · obtain rfl : cs = ds := List.tail_eq_of_cons_eq hcs
      exact hd
  · intro hd
    exact ⟨['+'], cs, .inr rfl, hd, rfl⟩

theorem spells_of_not_plus (h : cs.head? ≠ some '+') : Spells cs n ↔ Digits cs n := by
  constructor
  · rintro ⟨sign, ds, rfl | rfl, hd, rfl⟩
    · exact hd
    · exact (h rfl).elim
  · intro hd
    exact ⟨[], cs, .inl rfl, hd, rfl⟩

theorem read?_eq_some_iff : read? top cs = some n ↔ Spells cs n ∧ n ≤ top := by
  unfold read?
  split
  · rw [spells_plus, Option.filter_eq_some_iff, digits?_eq_some_iff, decide_eq_true_eq]
  · rename_i hplus
    have hhead : cs.head? ≠ some '+' := by
      intro h
      obtain ⟨rest, rfl⟩ := List.head?_eq_some_iff.mp h
      exact hplus rest rfl
    rw [spells_of_not_plus hhead, Option.filter_eq_some_iff, digits?_eq_some_iff,
      decide_eq_true_eq]

theorem digits_toDigits (n : Nat) : Digits (Nat.toDigits 10 n) n where
  ne_nil := Nat.toDigits_ne_nil
  digits _ hd := Nat.isDigit_of_mem_toDigits (by decide) (by decide) hd
  value := Nat.ofDigitChars_ten_toDigits

theorem spells_toString (n : Nat) : Spells (toString n).toList n := by
  rw [Nat.toString_eq_repr, Nat.toList_repr]
  exact ⟨[], _, .inl rfl, digits_toDigits n, rfl⟩

/-- Nothing but digits and a plus sign stands in a number. -/
theorem Spells.not_mem (h : Spells cs n) (hc : c.isDigit = false) (hplus : c ≠ '+') : c ∉ cs := by
  obtain ⟨sign, ds, hsign, hd, rfl⟩ := h
  rw [List.mem_append]
  rintro (hmem | hmem)
  · rcases hsign with rfl | rfl
    · cases hmem
    · exact hplus (List.mem_singleton.mp hmem)
  · rw [hd.digits c hmem] at hc
    cases hc

end Multicast.Decimal
