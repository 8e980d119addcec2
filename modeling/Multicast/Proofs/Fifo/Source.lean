import Multicast.Order.Fifo
import Multicast.Proofs.Ascending

/-! What a FIFO layer keeps of one source: how far its stream has come, and what waits for its
turn. -/
namespace Multicast

/-- A list goes on with what stands at the next places of a longer one. -/
theorem prefix_append_of_zipIdx {α : Type} {got sent xs : List α} {base : Nat} (h : got <+: sent)
    (hxs : ∀ x ∈ xs.zipIdx (base + got.length), x ∈ sent.zipIdx base) : got ++ xs <+: sent := by
  induction xs generalizing got with
  | nil => rwa [List.append_nil]
  | cons x xs ih =>
    obtain ⟨rest, rfl⟩ := h
    have hx := (List.mk_mem_zipIdx_iff_le_and_getElem?_sub.mp (hxs (x, _) List.mem_cons_self)).2
    rw [Nat.add_sub_cancel_left, List.getElem?_append_right (Nat.le_refl _), Nat.sub_self] at hx
    obtain ⟨rest, rfl⟩ : ∃ rest', rest = x :: rest' := by
      cases rest with
      | nil => cases hx
      | cons y rest => exact ⟨rest, by simpa using hx⟩
    have hstep : got ++ [x] ++ xs <+: got ++ x :: rest := ih (by simp) fun y hy => by
      rw [List.length_append, List.length_singleton, ← Nat.add_assoc] at hy
      exact hxs y (List.mem_cons_of_mem _ hy)
    simpa using hstep

namespace FifoSource

variable {s s' : FifoSource} {base m : Nat} {sent sent' got payloads : List Bytes} {payload : Bytes}
  {buffer : List (Nat × Bytes)} {packet : FifoPacket}

theorem holds_iff : s.holds m = true ↔ ∃ payload, (m, payload) ∈ s.buffer := by
  simp [holds]

/-- The buffer is drained as long as the numbers follow one another. -/
theorem drain_spec {expected : Nat} (hasc : buffer.Pairwise (·.1 < ·.1))
    (hlow : ∀ x ∈ buffer, expected ≤ x.1) : ∃ payloads rest,
      drain expected buffer = (payloads, ⟨expected + payloads.length, rest⟩) ∧
      buffer = (payloads.zipIdx expected).map Prod.swap ++ rest ∧
      ∀ x ∈ rest, expected + payloads.length < x.1 := by
  induction buffer generalizing expected with
  | nil => exact ⟨[], [], rfl, rfl, by simp⟩
  | cons e buffer ih =>
    obtain ⟨n, payload⟩ := e
    obtain ⟨hn, hasc⟩ := List.pairwise_cons.mp hasc
    by_cases he : n = expected
    · subst he
      have hlow : ∀ x ∈ buffer, n + 1 ≤ x.1 := fun x hx => hn x hx
      obtain ⟨payloads, rest, hdrain, hsplit, hhigh⟩ := ih hasc hlow
      refine ⟨payload :: payloads, rest, ?_, ?_, ?_⟩
      · rw [drain, if_pos rfl, hdrain, List.length_cons, Nat.add_comm payloads.length,
          ← Nat.add_assoc]
      · rw [List.zipIdx_cons, List.map_cons, List.cons_append, ← hsplit]
        rfl
      · intro x hx
        have hx := hhigh x hx
        rw [List.length_cons]
        omega
    · refine ⟨[], (n, payload) :: buffer, ?_, rfl, ?_⟩
      · rw [drain, if_neg he]
        rfl
      · have hlow := hlow (n, payload) List.mem_cons_self
        intro x hx
        rcases List.mem_cons.mp hx with rfl | hx
        · exact Nat.lt_of_le_of_ne hlow (Ne.symm he)
        · exact Nat.lt_of_le_of_lt hlow (hn x hx)

theorem mem_keep_buffer {x : Nat × Bytes} (hn : s.holds packet.sequence = false) :
    x ∈ (s.keep packet).buffer ↔ x = (packet.sequence, packet.payload) ∨ x ∈ s.buffer := by
  constructor
  · exact mem_of_mem_insertAscending
  · rintro (rfl | hx)
    · exact mem_insertAscending_self
    · refine mem_insertAscending_of_mem hx ?_
      rw [ne_eq, lexicographic_eq_iff]
      rintro heq
      have hheld : s.holds packet.sequence = true :=
        holds_iff.mpr ⟨x.2, by rwa [show packet.sequence = x.1 from (List.cons.inj heq).1]⟩
      rw [hn] at hheld
      cases hheld

/-- A packet that is kept takes its place by its number. -/
theorem ascending_keep (h : s.buffer.Pairwise (·.1 < ·.1)) :
    (s.keep packet).buffer.Pairwise (·.1 < ·.1) := by
  refine pairwise_insertAscending ?_ ?_ ?_ (fun _ _ _ => Nat.lt_trans) h
  · intro x y hxy
    simp only [lexicographic] at hxy
    grind
  · intro x y z hxy hyz
    have hxy := (List.cons.inj (lexicographic_eq_iff.mp hxy)).1
    rwa [hxy]
  · intro x y hxy
    simp only [lexicographic] at hxy
    grind

/-- The source has delivered `got` of the payloads `sent`, which are numbered from `base`. -/
structure Follows (s : FifoSource) (base : Nat) (sent got : List Bytes) : Prop where
  delivered : got <+: sent
  expected : s.expected = base + got.length
  ascending : s.buffer.Pairwise (·.1 < ·.1)
  waiting : ∀ x ∈ s.buffer, s.expected < x.1 ∧ (x.2, x.1) ∈ sent.zipIdx base

/-- The packet with number `m` has been delivered or waits for its turn. -/
def Has (s : FifoSource) (base m : Nat) : Prop := base ≤ m ∧ (m < s.expected ∨ s.holds m = true)

theorem Follows.start : (⟨base, []⟩ : FifoSource).Follows base [] [] where
  delivered := List.prefix_refl _
  expected := rfl
  ascending := List.Pairwise.nil
  waiting := by simp

theorem not_has_start : ¬ (⟨base, []⟩ : FifoSource).Has base m := by
  rintro ⟨hle, hlt | hheld⟩
  · exact Nat.not_lt_of_le hle hlt
  · cases hheld

theorem Follows.mono (h : s.Follows base sent got) (hsent : sent <+: sent') :
    s.Follows base sent' got where
  delivered := h.delivered.trans hsent
  expected := h.expected
  ascending := h.ascending
  waiting x hx := by
    obtain ⟨hlt, hmem⟩ := h.waiting x hx
    obtain ⟨rest, rfl⟩ := hsent
    refine ⟨hlt, ?_⟩
    rw [List.zipIdx_append]
    exact List.mem_append_left _ hmem

theorem Follows.keep (h : s.Follows base sent got) (hearly : s.expected < packet.sequence)
    (hn : s.holds packet.sequence = false)
    (hsent : (packet.payload, packet.sequence) ∈ sent.zipIdx base) :
    (s.keep packet).Follows base sent got where
  delivered := h.delivered
  expected := h.expected
  ascending := ascending_keep h.ascending
  waiting x hx := by
    rcases (mem_keep_buffer hn).mp hx with rfl | hx
    · exact ⟨hearly, hsent⟩
    · exact h.waiting x hx

theorem has_keep (hn : s.holds packet.sequence = false) (hbase : base ≤ packet.sequence) :
    (s.keep packet).Has base m ↔ s.Has base m ∨ m = packet.sequence := by
  have hheld : (s.keep packet).holds m = true ↔ m = packet.sequence ∨ s.holds m = true := by
    simp only [holds_iff, mem_keep_buffer hn, Prod.mk.injEq]
    constructor
    · rintro ⟨payload, ⟨rfl, -⟩ | hmem⟩
      · exact Or.inl rfl
      · exact Or.inr ⟨payload, hmem⟩
    · rintro (rfl | ⟨payload, hmem⟩)
      · exact ⟨_, Or.inl ⟨rfl, rfl⟩⟩
      · exact ⟨payload, Or.inr hmem⟩
  have hexpected : (s.keep packet).expected = s.expected := rfl
  rw [Has, hheld, hexpected, Has]
  constructor
  · rintro ⟨hle, hlt | rfl | hheld⟩
    · exact Or.inl ⟨hle, Or.inl hlt⟩
    · exact Or.inr rfl
    · exact Or.inl ⟨hle, Or.inr hheld⟩
  · rintro (⟨hle, hlt | hheld⟩ | rfl)
    · exact ⟨hle, Or.inl hlt⟩
    · exact ⟨hle, Or.inr (Or.inr hheld)⟩
    · exact ⟨hbase, Or.inr (Or.inl rfl)⟩

section Drain

/- The first part of the buffer is drained after the payload that was expected. -/
variable {rest : List (Nat × Bytes)}
  (hsplit : s.buffer = (payloads.zipIdx (s.expected + 1)).map Prod.swap ++ rest)
  (hhigh : ∀ x ∈ rest, s.expected + 1 + payloads.length < x.1)
include hsplit hhigh

theorem Follows.drained (h : s.Follows base sent got)
    (hsent : (payload, s.expected) ∈ sent.zipIdx base) :
    (⟨s.expected + 1 + payloads.length, rest⟩ : FifoSource).Follows base sent
      (got ++ payload :: payloads) where
  delivered := by
    have hnext : ∀ x ∈ (payload :: payloads).zipIdx (base + got.length), x ∈ sent.zipIdx base := by
      intro x hx
      rw [← h.expected, List.zipIdx_cons] at hx
      rcases List.mem_cons.mp hx with rfl | hx
      · exact hsent
      · have hmem : x.swap ∈ s.buffer := by
          rw [hsplit]
          exact List.mem_append_left _ (List.mem_map_of_mem hx)
        exact (h.waiting _ hmem).2
    exact prefix_append_of_zipIdx h.delivered hnext
  expected := by
    have hexpected := h.expected
    rw [List.length_append, List.length_cons]
    dsimp only
    omega
  ascending := by
    have hascending := h.ascending
    rw [hsplit] at hascending
    exact (List.pairwise_append.mp hascending).2.1
  waiting x hx := by
    have hmem : x ∈ s.buffer := by
      rw [hsplit]
      exact List.mem_append_right _ hx
    exact ⟨hhigh x hx, (h.waiting x hmem).2⟩

omit hhigh in
theorem has_drained (hbase : base ≤ s.expected) :
    (⟨s.expected + 1 + payloads.length, rest⟩ : FifoSource).Has base m ↔
      s.Has base m ∨ m = s.expected := by
  constructor
  · rintro ⟨hle, hlt | hheld⟩
    · rcases Nat.lt_trichotomy m s.expected with hm | hm | hm
      · exact Or.inl ⟨hle, Or.inl hm⟩
      · exact Or.inr hm
      · -- The number is one of those that waited.
        have hlen : m - (s.expected + 1) < payloads.length := by
          dsimp only at hlt
          omega
        have hmem : (payloads[m - (s.expected + 1)], m) ∈ payloads.zipIdx (s.expected + 1) :=
          List.mk_mem_zipIdx_iff_le_and_getElem?_sub.mpr ⟨hm, List.getElem?_eq_getElem hlen⟩
        refine Or.inl ⟨hle, Or.inr (holds_iff.mpr ⟨payloads[m - (s.expected + 1)], ?_⟩)⟩
        rw [hsplit]
        exact List.mem_append_left _ (List.mem_map_of_mem hmem)
    · obtain ⟨payload, hmem⟩ := holds_iff.mp hheld
      refine Or.inl ⟨hle, Or.inr (holds_iff.mpr ⟨payload, ?_⟩)⟩
      rw [hsplit]
      exact List.mem_append_right _ hmem
  · rintro (⟨hle, hlt | hheld⟩ | rfl)
    · exact ⟨hle, Or.inl (by dsimp only; omega)⟩
    · obtain ⟨payload, hmem⟩ := holds_iff.mp hheld
      rw [hsplit] at hmem
      rcases List.mem_append.mp hmem with hmem | hmem
      · obtain ⟨x, hx, heq⟩ := List.mem_map.mp hmem
        obtain ⟨rfl, rfl⟩ := Prod.mk.inj heq
        have hlt := List.snd_lt_add_of_mem_zipIdx hx
        exact ⟨hle, Or.inl (by dsimp only; omega)⟩
      · exact ⟨hle, Or.inr (holds_iff.mpr ⟨payload, hmem⟩)⟩
    · exact ⟨hbase, Or.inl (by dsimp only; omega)⟩

end Drain

/-- A packet whose turn it is brings the stream forward, with all that waited for it. -/
theorem Follows.drain (h : s.Follows base sent got)
    (hsent : (payload, s.expected) ∈ sent.zipIdx base)
    (hdrain : drain (s.expected + 1) s.buffer = (payloads, s')) :
    s'.Follows base sent (got ++ payload :: payloads) ∧
      ∀ m, s'.Has base m ↔ s.Has base m ∨ m = s.expected := by
  have hlow : ∀ x ∈ s.buffer, s.expected + 1 ≤ x.1 := fun x hx => (h.waiting x hx).1
  obtain ⟨ps, rest, hspec, hsplit, hhigh⟩ := drain_spec h.ascending hlow
  obtain ⟨rfl, rfl⟩ := Prod.mk.inj (hdrain.symm.trans hspec)
  have hbase : base ≤ s.expected := by
    rw [h.expected]
    exact Nat.le_add_right _ _
  exact ⟨h.drained hsplit hhigh hsent, fun m => has_drained hsplit hbase⟩

/-- The number that is expected next is the least that is missing. -/
theorem Follows.not_has_expected (h : s.Follows base sent got) : ¬ s.Has base s.expected := by
  rintro ⟨-, hlt | hheld⟩
  · exact Nat.lt_irrefl _ hlt
  · obtain ⟨payload, hmem⟩ := holds_iff.mp hheld
    exact Nat.lt_irrefl _ (h.waiting _ hmem).1

/-- What waits has come, and it comes after the number that is expected. -/
theorem Follows.mem_buffer (h : s.Follows base sent got) : (m, payload) ∈ s.buffer ↔
    s.expected < m ∧ s.Has base m ∧ (payload, m) ∈ sent.zipIdx base := by
  constructor
  · intro hmem
    obtain ⟨hlt, hpayload⟩ := h.waiting _ hmem
    have hle := (List.mk_mem_zipIdx_iff_le_and_getElem?_sub.mp hpayload).1
    exact ⟨hlt, ⟨hle, Or.inr (holds_iff.mpr ⟨payload, hmem⟩)⟩, hpayload⟩
  · rintro ⟨hlt, ⟨-, hdone | hheld⟩, hpayload⟩
    · exact absurd hdone (Nat.not_lt_of_lt hlt)
    · obtain ⟨payload', hmem⟩ := holds_iff.mp hheld
      have hsame := (List.mk_mem_zipIdx_iff_le_and_getElem?_sub.mp (h.waiting _ hmem).2).2
      rw [(List.mk_mem_zipIdx_iff_le_and_getElem?_sub.mp hpayload).2] at hsame
      cases hsame
      exact hmem

end FifoSource

end Multicast
