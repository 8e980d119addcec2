import Mathlib.Data.List.Nodup
import Mathlib.Data.List.Pairwise
import Mathlib.Data.List.Perm.Subperm
import Multicast.Proofs.Delivered

/-! No shorter list of runs holds the same numbers as one in which a number is missing between each
two runs, and no other list that is as short holds them. -/
namespace Multicast.Run

variable {m n : Nat} {r s : Run} {rs ss : List Run}

/-- The two lists of runs hold the same numbers. -/
def Agree (rs ss : List Run) : Prop := ∀ n, Covers rs n ↔ Covers ss n

theorem Agree.symm (h : Agree rs ss) : Agree ss rs := fun n => (h n).symm

theorem covers_of_mem (hr : r ∈ rs) (hf : r.first ≤ n) (hl : n ≤ r.last) : Covers rs n :=
  ⟨r, hr, hf, hl⟩

namespace Spaced

theorem nodup_firsts (h : Spaced rs) : (rs.map Run.first).Nodup := by
  rw [List.nodup_iff_pairwise_ne, List.pairwise_map]
  refine h.2.imp_of_mem fun {r s} hr _ hrs => ?_
  have := h.1 r hr
  omega

/-- Of two runs, one is the other or a number is missing between them. -/
theorem apart (h : Spaced rs) (hr : r ∈ rs) (hs : s ∈ rs) :
    r = s ∨ r.last + 1 < s.first ∨ s.last + 1 < r.first := by
  let Apart (r s : Run) : Prop := r = s ∨ r.last + 1 < s.first ∨ s.last + 1 < r.first
  have hsymm : Std.Symm Apart := ⟨fun r s hrs => by
    rcases hrs with rfl | hrs | hrs
    · exact .inl rfl
    · exact .inr (.inr hrs)
    · exact .inr (.inl hrs)⟩
  have hall : ∀ r ∈ rs, ∀ s ∈ rs, Apart r s :=
    List.Pairwise.forall_of_forall (fun r _ => .inl rfl) (h.2.imp fun hrs => .inr (.inl hrs))
  exact hall r hr s hs

theorem not_covers_next (h : Spaced rs) (hr : r ∈ rs) : ¬ Covers rs (r.last + 1) := by
  rintro ⟨s, hs, hf, hl⟩
  have hlast := h.1 r hr
  rcases h.apart hr hs with rfl | hrs | hrs <;> omega

theorem not_covers_previous (h : Spaced rs) (hr : r ∈ rs) (hn : n + 1 = r.first) :
    ¬ Covers rs n := by
  rintro ⟨s, hs, hf, hl⟩
  have hlast := h.1 r hr
  rcases h.apart hr hs with rfl | hrs | hrs <;> omega

/-- Numbers in a row that are all held lie in one run. -/
theorem within (h : Spaced rs) (hr : r ∈ rs) (hf : r.first ≤ n) (hl : n ≤ r.last)
    (hs : s.first ≤ n) (hs' : n ≤ s.last) (hall : ∀ k, s.first ≤ k → k ≤ s.last → Covers rs k) :
    r.first ≤ s.first ∧ s.last ≤ r.last := by
  constructor
  · by_contra hlt
    exact h.not_covers_previous hr (n := r.first - 1) (by omega) (hall _ (by omega) (by omega))
  · by_contra hlt
    exact h.not_covers_next hr (hall _ (by omega) (by omega))

theorem within_of_agree (h : Spaced rs) (hagree : Agree rs ss) (hr : r ∈ rs) (hs : s ∈ ss)
    (hf : r.first ≤ n) (hl : n ≤ r.last) (hf' : s.first ≤ n) (hl' : n ≤ s.last) :
    r.first ≤ s.first ∧ s.last ≤ r.last :=
  h.within hr hf hl hf' hl' fun _ hk hk' => (hagree _).mpr (covers_of_mem hs hk hk')

/-- Where a run begins, a run begins in any list that holds the same numbers. -/
theorem firsts_subset (h : Spaced rs) (hagree : Agree rs ss) :
    rs.map Run.first ⊆ ss.map Run.first := by
  intro k hk
  obtain ⟨r, hr, rfl⟩ := List.mem_map.mp hk
  have hlast := h.1 r hr
  obtain ⟨s, hs, hf, hl⟩ := (hagree _).mp (covers_of_mem hr (Nat.le_refl _) hlast)
  have hle := (h.within_of_agree hagree hr hs (Nat.le_refl _) hlast hf hl).1
  exact List.mem_map.mpr ⟨s, hs, Nat.le_antisymm hf hle⟩

theorem length_le (h : Spaced rs) (hagree : Agree rs ss) : rs.length ≤ ss.length := by
  have hle := (h.nodup_firsts.subperm (h.firsts_subset hagree)).length_le
  rwa [List.length_map, List.length_map] at hle

/-- A list that is as short consists of the same runs. -/
theorem perm (h : Spaced rs) (hagree : Agree rs ss) (hlength : ss.length ≤ rs.length) :
    rs.Perm ss := by
  have hfirsts : (rs.map Run.first).Perm (ss.map Run.first) :=
    (h.nodup_firsts.subperm (h.firsts_subset hagree)).perm_of_length_le (by simpa using hlength)
  have hsubset : rs ⊆ ss := by
    intro r hr
    have hlast := h.1 r hr
    -- The run that holds the last number of `r` begins where a run of `rs` does, which is `r`.
    obtain ⟨s, hs, hf, hl⟩ := (hagree _).mp (covers_of_mem hr hlast (Nat.le_refl _))
    obtain ⟨hle, hle'⟩ := h.within_of_agree hagree hr hs hlast (Nat.le_refl _) hf hl
    obtain ⟨t, ht, htf⟩ := List.mem_map.mp (hfirsts.mem_iff.mpr (List.mem_map_of_mem hs))
    have hsame : r = t := by
      have := h.1 t ht
      rcases h.apart hr ht with heq | hrt | hrt
      · exact heq
      · omega
      · omega
    have heq : r = s := by
      obtain ⟨a, b⟩ := r
      obtain ⟨c, d⟩ := s
      subst hsame
      dsimp only at htf hl hle'
      rw [htf, Nat.le_antisymm hl hle']
    exact heq ▸ hs
  have hnodup : rs.Nodup := List.Nodup.of_map _ h.nodup_firsts
  exact (hnodup.subperm hsubset).perm_of_length_le hlength

/-- Two lists with a number missing between each two runs are the same if they hold the same. -/
theorem ext (h : Spaced rs) (h' : Spaced ss) (hagree : Agree rs ss) : rs = ss := by
  have hperm := h.perm hagree (h'.length_le hagree.symm)
  refine hperm.eq_of_pairwise (fun r s hr hs hrs hsr => ?_) h.2 h'.2
  have := h.1 r hr
  have := h'.1 s hs
  omega

end Spaced

end Multicast.Run
