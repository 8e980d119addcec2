import Mathlib.Data.List.Basic
import Multicast.MessageId

/-! The orders that keep lists ascending, and membership in such lists. -/
namespace Multicast

theorem lexicographic_cons_lt {a b : Nat} {as bs : List Nat} :
    lexicographic (a :: as) (b :: bs) = .lt ↔ a < b ∨ a = b ∧ lexicographic as bs = .lt := by
  simp only [lexicographic]
  split
  · simp_all
  · split
    · have hne : a ≠ b := by omega
      simp_all
    · have heq : a = b := by omega
      simp_all

theorem lexicographic_trans {as bs cs : List Nat} (hab : lexicographic as bs = .lt)
    (hbc : lexicographic bs cs = .lt) : lexicographic as cs = .lt := by
  induction as generalizing bs cs with
  | nil =>
    cases cs with
    | nil => cases bs <;> simp [lexicographic] at hbc
    | cons c cs => rfl
  | cons a as ih =>
    cases bs with
    | nil => simp [lexicographic] at hab
    | cons b bs =>
      cases cs with
      | nil => simp [lexicographic] at hbc
      | cons c cs =>
        rw [lexicographic_cons_lt] at hab hbc ⊢
        rcases hab with hab | ⟨hab, has⟩
        · rcases hbc with hbc | ⟨hbc, -⟩ <;> left <;> omega
        · rcases hbc with hbc | ⟨hbc, hbs⟩
          · left
            omega
          · exact .inr ⟨hab.trans hbc, ih has hbs⟩

theorem Proc.order_eq_iff {p q : Proc} : p.order q = .eq ↔ p = q := by
  obtain ⟨a, m, i⟩ := p
  obtain ⟨b, n, j⟩ := q
  have hc : Function.Injective Char.toNat := fun _ _ h => Char.toNat_inj.mp h
  rw [Proc.order, Ordering.then_eq_eq, lexicographic_eq_iff, lexicographic_eq_iff]
  simp [(List.map_injective_iff.mpr hc).eq_iff, String.toList_inj, UInt16.toNat_inj,
    UInt32.toNat_inj]

theorem MessageId.order_eq_iff {i j : MessageId} : i.order j = .eq ↔ i = j := by
  obtain ⟨p, m⟩ := i
  obtain ⟨q, n⟩ := j
  simp [MessageId.order, Ordering.then_eq_eq, Proc.order_eq_iff, lexicographic_eq_iff]

section
variable {α : Type} {order : α → α → Ordering} {a b : α} {bs : List α}

theorem mem_of_mem_insertAscending (h : b ∈ insertAscending order a bs) : b = a ∨ b ∈ bs := by
  induction bs with
  | nil => simpa [insertAscending] using h
  | cons c cs ih =>
    simp only [insertAscending] at h
    split at h
    · simpa using h
    · simp only [List.mem_cons] at h ⊢
      tauto
    · simp only [List.mem_cons] at h ⊢
      tauto

theorem mem_insertAscending_self : a ∈ insertAscending order a bs := by
  induction bs with
  | nil => simp [insertAscending]
  | cons c cs ih =>
    simp only [insertAscending]
    split <;> simp [ih]

/-- Only elements that compare equal give way to the new one. -/
theorem mem_insertAscending_of_mem (hb : b ∈ bs) (hne : order a b ≠ .eq) :
    b ∈ insertAscending order a bs := by
  induction bs with
  | nil => simp at hb
  | cons c cs ih =>
    simp only [insertAscending]
    split
    · exact List.mem_cons_of_mem _ hb
    · rename_i hc
      rcases List.mem_cons.mp hb with rfl | hb
      · exact (hne hc).elim
      · exact List.mem_cons_of_mem _ hb
    · rcases List.mem_cons.mp hb with rfl | hb
      · exact List.mem_cons_self
      · exact List.mem_cons_of_mem _ (ih hb)

theorem length_insertAscending_le : (insertAscending order a bs).length ≤ bs.length + 1 := by
  induction bs with
  | nil => exact Nat.le_refl _
  | cons b bs ih =>
    simp only [insertAscending]
    split <;> simp only [List.length_cons] <;> omega

theorem insertAscending_of_gt (h : ∀ b ∈ bs, order a b = .gt) :
    insertAscending order a bs = bs ++ [a] := by
  induction bs with
  | nil => rfl
  | cons b bs ih =>
    have hrest : ∀ c ∈ bs, order a c = .gt := fun c hc => h c (List.mem_cons_of_mem _ hc)
    rw [insertAscending, h b List.mem_cons_self]
    exact congrArg (b :: ·) (ih hrest)

/-- A list that ascends still does. -/
theorem pairwise_insertAscending {less : α → α → Prop} (hlt : ∀ a b, order a b = .lt → less a b)
    (heq : ∀ a b c, order a b = .eq → less b c → less a c)
    (hgt : ∀ a b, order a b = .gt → less b a) (htrans : ∀ a b c, less a b → less b c → less a c)
    (h : bs.Pairwise less) : (insertAscending order a bs).Pairwise less := by
  induction bs with
  | nil => exact List.pairwise_singleton _ _
  | cons b bs ih =>
    obtain ⟨hb, hbs⟩ := List.pairwise_cons.mp h
    simp only [insertAscending]
    split
    · rename_i hab
      refine List.pairwise_cons.mpr ⟨?_, h⟩
      intro c hc
      rcases List.mem_cons.mp hc with rfl | hc
      · exact hlt a c hab
      · exact htrans a b c (hlt a b hab) (hb c hc)
    · rename_i hab
      exact List.pairwise_cons.mpr ⟨fun c hc => heq a b c hab (hb c hc), hbs⟩
    · rename_i hab
      refine List.pairwise_cons.mpr ⟨?_, ih hbs⟩
      intro c hc
      rcases mem_of_mem_insertAscending hc with rfl | hc
      · exact hgt c b hab
      · exact hb c hc

theorem mem_insertAscending (ho : ∀ a b, order a b = .eq ↔ a = b) :
    b ∈ insertAscending order a bs ↔ b = a ∨ b ∈ bs := by
  constructor
  · exact mem_of_mem_insertAscending
  · rintro (rfl | hb)
    · exact mem_insertAscending_self
    · by_cases hab : order a b = .eq
      · exact (ho a b).mp hab ▸ mem_insertAscending_self
      · exact mem_insertAscending_of_mem hb hab

end

namespace Proc

variable {p : Proc} {ps : List Proc}

@[simp] theorem mem_ascending : p ∈ ascending ps ↔ p ∈ ps := by
  induction ps with
  | nil => simp [ascending]
  | cons q qs ih =>
    change p ∈ insertAscending order q (ascending qs) ↔ p ∈ q :: qs
    rw [mem_insertAscending fun _ _ => order_eq_iff, ih, List.mem_cons]

@[simp] theorem ascending_eq_nil : ascending ps = [] ↔ ps = [] := by
  simp only [List.eq_nil_iff_forall_not_mem, mem_ascending]

@[simp] theorem mem_firsts : p ∈ firsts ps ↔ p ∈ ps := by
  induction ps with
  | nil => simp [firsts]
  | cons q qs ih =>
    by_cases h : p = q <;> simp [firsts, ih, h]

theorem nodup_firsts : (firsts ps).Nodup := by
  induction ps with
  | nil => exact List.nodup_nil
  | cons p ps ih =>
    refine List.nodup_cons.mpr ⟨?_, ih.filter _⟩
    simp

theorem firsts_of_nodup (h : ps.Nodup) : firsts ps = ps := by
  induction ps with
  | nil => rfl
  | cons p ps ih =>
    obtain ⟨hp, hps⟩ := List.nodup_cons.mp h
    have hkeep : ∀ q ∈ ps, q ≠ p := fun q hq he => hp (he ▸ hq)
    rw [firsts, ih hps, List.filter_eq_self.mpr (by simpa using hkeep)]

theorem firsts_filter (keep : Proc → Bool) : firsts (ps.filter keep) = (firsts ps).filter keep := by
  induction ps with
  | nil => rfl
  | cons p ps ih =>
    have hcomm : (firsts (ps.filter keep)).filter (· ≠ p) =
        ((firsts ps).filter (· ≠ p)).filter keep := by
      rw [ih, List.filter_filter, List.filter_filter]
      exact List.filter_congr fun q _ => Bool.and_comm ..
    by_cases hp : keep p
    · rw [firsts, List.filter_cons_of_pos hp, List.filter_cons_of_pos hp, firsts, hcomm]
    · rw [firsts, List.filter_cons_of_neg hp, List.filter_cons_of_neg hp, ← hcomm]
      refine (List.filter_eq_self.mpr fun q hq => ?_).symm
      have hkept : keep q = true := (List.mem_filter.mp (mem_firsts.mp hq)).2
      rw [decide_eq_true_eq]
      rintro rfl
      exact hp hkept

/-- The two agree, though the library's drops the repetitions of a process before it goes on. -/
theorem firsts_eq_eraseDups (ps : List Proc) : firsts ps = ps.eraseDups := by
  match ps with
  | [] => rfl
  | p :: ps =>
    have hsame : ps.filter (!· == p) = ps.filter (· ≠ p) :=
      List.filter_congr fun q _ => by simp [beq_eq_decide]
    rw [firsts, List.eraseDups_cons, hsame, ← firsts_eq_eraseDups, firsts_filter]
termination_by ps.length
decreasing_by exact Nat.lt_succ_of_le (List.length_filter_le _ _)

theorem firstRepeated?_go_eq_none {seen : List Proc} :
    firstRepeated?.go seen ps = none ↔ ps.Nodup ∧ ∀ p ∈ ps, p ∉ seen := by
  induction ps generalizing seen with
  | nil => simp [firstRepeated?.go]
  | cons q qs ih =>
    by_cases h : q ∈ seen
    · simp [firstRepeated?.go, h]
    · simp only [firstRepeated?.go, h, if_false, ih, List.nodup_cons, List.mem_cons]
      grind

theorem firstRepeated?_eq_none : firstRepeated? ps = none ↔ ps.Nodup := by
  simp [firstRepeated?, firstRepeated?_go_eq_none]

end Proc

end Multicast
