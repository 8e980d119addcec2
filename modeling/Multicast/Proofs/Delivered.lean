import Multicast.Order.Delivered
import Multicast.Proofs.Table

/-! The runs of consecutive numbers stand for a set of messages. -/
namespace Multicast

namespace Run
variable {n k : Nat} {r : Run} {rs rs' : List Run}

/-- Runs in ascending order, none empty, with a number missing between each two. -/
def Spaced (rs : List Run) : Prop :=
  (∀ r ∈ rs, r.first ≤ r.last) ∧ rs.Pairwise fun r s => r.last + 1 < s.first

/-- The numbers in some run. -/
def Covers (rs : List Run) (n : Nat) : Prop := ∃ r ∈ rs, r.first ≤ n ∧ n ≤ r.last

theorem any_contains_iff : rs.any (·.contains n) = true ↔ Covers rs n := by
  simp [Covers, Run.contains]

@[simp] theorem covers_cons :
    Covers (r :: rs) n ↔ (r.first ≤ n ∧ n ≤ r.last) ∨ Covers rs n := by
  simp [Covers]

@[simp] theorem spaced_cons : Spaced (r :: rs) ↔
    r.first ≤ r.last ∧ (∀ s ∈ rs, r.last + 1 < s.first) ∧ Spaced rs := by
  simp only [Spaced, List.mem_cons, forall_eq_or_imp, List.pairwise_cons]
  tauto

theorem Spaced.not_covers (h : Spaced (r :: rs)) (hn : n ≤ r.last + 1) : ¬ Covers rs n := by
  rintro ⟨s, hs, hf, -⟩
  have := (spaced_cons.mp h).2.1 s hs
  omega

theorem insert?_eq_none (h : Spaced rs) : insert? n rs = none ↔ Covers rs n := by
  fun_induction insert? n rs with
  | case1 => simp [Covers]
  | case2 r rs hn | case3 r rs _ hn =>
    have := spaced_cons.mp h
    have := h.not_covers (n := n) (by omega)
    simp [this]
    omega
  | case4 r rs h₁ h₂ hn => simp; omega
  | case5 r h₁ h₂ => simp [Covers]; omega
  | case6 r h₁ h₂ h₃ h₄ s ss hs | case7 r h₁ h₂ h₃ h₄ s ss hs =>
    have := h.not_covers (n := n) (by omega)
    simp only [covers_cons, this, or_false, reduceCtorEq, false_iff]
    omega
  | case8 r rs h₁ h₂ h₃ h₄ ih =>
    have := ih (spaced_cons.mp h).2.2
    simp [this]
    omega

theorem covers_insert? (h : Spaced rs) (hi : insert? n rs = some rs') :
    Covers rs' k ↔ k = n ∨ Covers rs k := by
  fun_induction insert? n rs generalizing rs' with
  | case1 | case2 => grind [covers_cons]
  | case4 => grind
  | case3 | case5 | case6 | case7 => grind [covers_cons, spaced_cons]
  | case8 r rs h₁ h₂ h₃ h₄ ih =>
    obtain ⟨ss, hss, rfl⟩ := Option.map_eq_some_iff.mp hi
    rw [covers_cons, covers_cons, ih (spaced_cons.mp h).2.2 hss]
    tauto

theorem spaced_insert? (h : Spaced rs) (hi : insert? n rs = some rs') : Spaced rs' := by
  fun_induction insert? n rs generalizing rs' with
  | case1 | case2 | case3 | case5 | case6 | case7 => grind [spaced_cons, Spaced]
  | case4 => grind
  | case8 r rs h₁ h₂ h₃ h₄ ih =>
    obtain ⟨ss, hss, rfl⟩ := Option.map_eq_some_iff.mp hi
    have hr := spaced_cons.mp h
    have hs := ih hr.2.2 hss
    refine spaced_cons.mpr ⟨hr.1, ?_, hs⟩
    intro s hmem
    -- The first number of a run is covered, so it is `n` or lies in an old run.
    have hc : Covers ss s.first := ⟨s, hmem, Nat.le_refl _, hs.1 s hmem⟩
    rcases (covers_insert? hr.2.2 hss).mp hc with he | ⟨t, ht, hf, -⟩
    · omega
    · have := hr.2.1 t ht
      omega

end Run

namespace Delivered
variable {d d' : Delivered} {i j : MessageId} {p q : Proc}

/-- The runs of every sender are in order. -/
def Valid (d : Delivered) : Prop := ∀ p, Run.Spaced (d.runsOf p)

theorem contains_iff : d.contains i = true ↔ Run.Covers (d.runsOf i.sender) i.sequence :=
  Run.any_contains_iff

theorem runsOf_insert? (h : d.insert? i = some d') : ∃ rs,
    Run.insert? i.sequence (d.runsOf i.sender) = some rs ∧
      ∀ p, d'.runsOf p = if p = i.sender then rs else d.runsOf p := by
  obtain ⟨rs, hrs, rfl⟩ := Option.map_eq_some_iff.mp h
  refine ⟨rs, hrs, fun p => ?_⟩
  simp only [runsOf, Table.get?_put]
  split <;> rfl

theorem runsOf_forget : (d.forget p).runsOf q = if q = p then [] else d.runsOf q := by
  simp only [runsOf, forget, Table.get?_erase]
  split <;> rfl

theorem valid_empty : Valid {} := fun _ => ⟨by simp [runsOf, Table.get?], .nil⟩

theorem insert?_eq_none (hd : d.Valid) : d.insert? i = none ↔ d.contains i = true := by
  simp [insert?, contains_iff, Run.insert?_eq_none (hd i.sender)]

theorem valid_insert? (hd : d.Valid) (h : d.insert? i = some d') : d'.Valid := by
  obtain ⟨rs, hrs, hr⟩ := runsOf_insert? h
  intro p
  rw [hr]
  split
  · exact Run.spaced_insert? (hd i.sender) hrs
  · exact hd p

theorem contains_insert? (hd : d.Valid) (h : d.insert? i = some d') :
    d'.contains j = true ↔ j = i ∨ d.contains j = true := by
  obtain ⟨rs, hrs, hr⟩ := runsOf_insert? h
  obtain ⟨p, m⟩ := i
  obtain ⟨q, n⟩ := j
  simp only [contains_iff, hr, MessageId.mk.injEq]
  split
  · rename_i he
    subst he
    simp [Run.covers_insert? (hd q) hrs]
  · simp [*]

theorem valid_insert (hd : d.Valid) : (d.insert i).Valid := by
  rw [insert]
  cases h : d.insert? i with
  | none => exact hd
  | some d' => exact valid_insert? hd h

theorem contains_insert (hd : d.Valid) :
    (d.insert i).contains j = true ↔ j = i ∨ d.contains j = true := by
  rw [insert]
  cases h : d.insert? i with
  | none =>
    have hi := (insert?_eq_none hd).mp h
    constructor
    · exact Or.inr
    · rintro (rfl | hj)
      · exact hi
      · exact hj
  | some d' => exact contains_insert? hd h

theorem insert_of_contains (hd : d.Valid) (h : d.contains i = true) : d.insert i = d := by
  rw [insert, (insert?_eq_none hd).mpr h, Option.getD_none]

theorem insert?_eq (hd : d.Valid) :
    d.insert? i = if d.contains i then none else some (d.insert i) := by
  split
  · rename_i hc
    exact (insert?_eq_none hd).mpr hc
  · rename_i hc
    obtain ⟨d', hd'⟩ := Option.ne_none_iff_exists'.mp (mt (insert?_eq_none hd).mp hc)
    rw [insert, hd', Option.getD_some]

theorem valid_forget (hd : d.Valid) : (d.forget p).Valid := by
  intro q
  rw [runsOf_forget]
  split
  · exact ⟨by simp, .nil⟩
  · exact hd q

theorem contains_forget :
    (d.forget p).contains i = true ↔ i.sender ≠ p ∧ d.contains i = true := by
  rw [contains_iff, contains_iff, runsOf_forget]
  split <;> simp_all [Run.Covers]

end Delivered

end Multicast
