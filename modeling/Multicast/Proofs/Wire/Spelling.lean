import Multicast.Proofs.Wire.Envelopes

/-! The byte strings that are read as a number, or as numbers and bytes in a row. The encoding is
the shortest of them. -/
namespace Multicast

namespace Varint

variable {bits k n : Nat} {b : UInt8} {v bs rest : Bytes}

/-- The bytes are read as the number, to the last. -/
def Spells (bits n : Nat) (v : Bytes) : Prop := read bits v = .ok (n, [])

/-- The last group is no zero that might have been left out. -/
def Minimal (v : Bytes) : Prop := v.getLast? = some 0 → v.length = 1

instance : DecidablePred Minimal := fun _ => inferInstanceAs (Decidable (_ → _))

theorem read_cons_eq_ok : read bits (b :: bs) = .ok (n, rest) ↔
    (b.toNat < 128 ∧ b.toNat < 2 ^ bits ∧ n = b.toNat ∧ rest = bs) ∨
      (128 ≤ b.toNat ∧ 7 < bits ∧
        ∃ k, read (bits - 7) bs = .ok (k, rest) ∧ n = b.toNat % 128 + 128 * k) := by
  rw [read_cons]
  by_cases hbits : bits ≤ 7
  · have hpow : 2 ^ bits ≤ 2 ^ 7 := Nat.pow_le_pow_right (by omega) hbits
    rw [if_pos hbits]
    split
    · simp only [Except.ok.injEq, Prod.mk.injEq]
      constructor
      · rintro ⟨rfl, rfl⟩
        exact Or.inl ⟨by omega, by assumption, rfl, rfl⟩
      · rintro (⟨-, -, rfl, rfl⟩ | ⟨-, h, -⟩)
        · exact ⟨rfl, rfl⟩
        · omega
    · simp only [reduceCtorEq, false_iff]
      omega
  · have hpow : 2 ^ 7 ≤ 2 ^ bits := Nat.pow_le_pow_right (by omega) (by omega)
    rw [if_neg hbits]
    split
    · simp only [Except.ok.injEq, Prod.mk.injEq]
      constructor
      · rintro ⟨rfl, rfl⟩
        exact Or.inl ⟨by assumption, by omega, rfl, rfl⟩
      · rintro (⟨-, -, rfl, rfl⟩ | ⟨h, -⟩)
        · exact ⟨rfl, rfl⟩
        · omega
    · rename_i hmore
      cases read (bits - 7) bs with
      | error e =>
        simp only [reduceCtorEq, false_and, exists_false, and_false, or_false, false_iff]
        omega
      | ok result =>
        simp only [Except.ok.injEq, Prod.mk.injEq]
        constructor
        · rintro ⟨rfl, rfl⟩
          exact Or.inr ⟨by omega, by omega, _, rfl, rfl⟩
        · rintro (⟨h, -⟩ | ⟨-, -, k, rfl, rfl⟩)
          · omega
          · exact ⟨rfl, rfl⟩

theorem not_spells_nil : ¬ Spells bits n [] := by
  intro h
  cases h

theorem spells_cons : Spells bits n (b :: v) ↔
    (b.toNat < 128 ∧ b.toNat < 2 ^ bits ∧ n = b.toNat ∧ v = []) ∨
      (128 ≤ b.toNat ∧ 7 < bits ∧ ∃ k, Spells (bits - 7) k v ∧ n = b.toNat % 128 + 128 * k) := by
  rw [Spells, read_cons_eq_ok, @eq_comm _ []]
  rfl

/-- What is read from a buffer is spelled at its front, whatever follows. -/
theorem read_iff : read bits bs = .ok (n, rest) ↔ ∃ v, Spells bits n v ∧ bs = v ++ rest := by
  induction bs generalizing bits n with
  | nil =>
    constructor
    · intro h
      cases h
    · rintro ⟨v, hv, hs⟩
      obtain ⟨rfl, -⟩ := List.append_eq_nil_iff.mp hs.symm
      exact (not_spells_nil hv).elim
  | cons b bs ih =>
    rw [read_cons_eq_ok]
    constructor
    · rintro (⟨hlast, hfits, rfl, rfl⟩ | ⟨hmore, hbits, k, hk, rfl⟩)
      · exact ⟨[b], spells_cons.mpr (Or.inl ⟨hlast, hfits, rfl, rfl⟩), rfl⟩
      · obtain ⟨v, hv, rfl⟩ := ih.mp hk
        exact ⟨b :: v, spells_cons.mpr (Or.inr ⟨hmore, hbits, k, hv, rfl⟩), rfl⟩
    · rintro ⟨v, hv, hs⟩
      cases v with
      | nil => exact (not_spells_nil hv).elim
      | cons c v =>
        obtain ⟨rfl, rfl⟩ := List.cons_eq_cons.mp hs
        rcases spells_cons.mp hv with ⟨hlast, hfits, rfl, rfl⟩ | ⟨hmore, hbits, k, hk, rfl⟩
        · exact Or.inl ⟨hlast, hfits, rfl, rfl⟩
        · exact Or.inr ⟨hmore, hbits, k, ih.mpr ⟨v, hk, rfl⟩, rfl⟩

theorem spells_encode (h : n < 2 ^ bits) : Spells bits n (encode n) := by
  have hread := read_encode h []
  rwa [List.append_nil] at hread

theorem lt_of_spells (h : Spells bits n v) : n < 2 ^ bits := by
  induction v generalizing bits n with
  | nil => exact (not_spells_nil h).elim
  | cons b v ih =>
    rcases spells_cons.mp h with ⟨-, hfits, rfl, -⟩ | ⟨-, hbits, k, hk, rfl⟩
    · exact hfits
    · have hlt := ih hk
      have hpow : 2 ^ bits = 2 ^ (bits - 7) * 2 ^ 7 := by
        rw [← Nat.pow_add]
        congr 1
        omega
      omega

/-- Nothing but zero groups spells zero. -/
theorem getLast_of_zero (h : Spells bits 0 v) : v.getLast? = some 0 := by
  induction v generalizing bits with
  | nil => exact (not_spells_nil h).elim
  | cons b v ih =>
    rcases spells_cons.mp h with ⟨-, -, hb, rfl⟩ | ⟨-, -, k, hk, hn⟩
    · have hzero : b = 0 := UInt8.toNat_inj.mp hb.symm
      rw [hzero]
      rfl
    · obtain rfl : k = 0 := by omega
      rw [List.getLast?_cons, ih hk]
      rfl

theorem encode_last (h : b.toNat < 128) : encode b.toNat = [b] := by
  rw [encode, if_pos h, UInt8.ofNat_toNat]

theorem encode_more (hb : 128 ≤ b.toNat) (hk : k ≠ 0) :
    encode (b.toNat % 128 + 128 * k) = b :: encode k := by
  have hlt := b.toNat_lt
  have hlow : (b.toNat % 128 + 128 * k) % 128 + 128 = b.toNat := by omega
  have hhigh : (b.toNat % 128 + 128 * k) / 128 = k := by omega
  rw [encode, if_neg (by omega), hlow, hhigh, UInt8.ofNat_toNat]

/-- Only zero is spelled by a zero group alone. -/
theorem minimal_iff (h : Spells bits n v) (hn : n ≠ 0) : Minimal v ↔ v.getLast? ≠ some 0 := by
  refine ⟨fun hm hlast => ?_, fun hlast hzero => (hlast hzero).elim⟩
  obtain ⟨b, rfl⟩ := List.length_eq_one_iff.mp (hm hlast)
  obtain rfl : b = 0 := by simpa using hlast
  rcases spells_cons.mp h with ⟨-, -, hb, -⟩ | ⟨hb, -⟩
  · exact hn hb
  · exact absurd hb (by decide)

/-- The encoding is no longer than any spelling, and the only one that is minimal. -/
theorem encode_of_spells (h : Spells bits n v) :
    (encode n).length ≤ v.length ∧ (encode n = v ↔ Minimal v) := by
  induction v generalizing bits n with
  | nil => exact (not_spells_nil h).elim
  | cons b v ih =>
    rcases spells_cons.mp h with ⟨hlast, -, rfl, rfl⟩ | ⟨hmore, -, k, hk, rfl⟩
    · rw [encode_last hlast]
      exact ⟨Nat.le_refl _, iff_of_true rfl fun _ => rfl⟩
    · have hpos : v.length ≠ 0 := by
        intro hnil
        rw [List.length_eq_zero_iff] at hnil
        exact not_spells_nil (hnil ▸ hk)
      by_cases hzero : k = 0
      · subst hzero
        have hshort : (encode (b.toNat % 128 + 128 * 0)).length = 1 := by
          rw [encode, if_pos (by omega)]
          rfl
        refine ⟨by rw [hshort, List.length_cons]; omega, iff_of_false ?_ ?_⟩
        · intro he
          rw [he, List.length_cons] at hshort
          omega
        · intro hm
          have hlength := hm (by rw [List.getLast?_cons, getLast_of_zero hk]; rfl)
          rw [List.length_cons] at hlength
          omega
      · obtain ⟨hle, hiff⟩ := ih hk
        rw [encode_more hmore hzero]
        refine ⟨Nat.succ_le_succ hle, ?_⟩
        rw [List.cons_eq_cons, and_iff_right rfl, hiff]
        have hlast : (b :: v).getLast? = v.getLast? := by
          cases v with
          | nil => exact (hpos rfl).elim
          | cons => exact List.getLast?_cons_cons
        rw [minimal_iff hk hzero, minimal_iff h (by omega), hlast]

end Varint

/-- A part of an encoding. -/
inductive Piece where
  /-- A number of a type with so many bits. -/
  | number (bits n : Nat)
  /-- Bytes as they are. -/
  | bytes (bs : Bytes)
  deriving DecidableEq, Repr

namespace Piece

variable {ps qs : List Piece} {vs ws : List Bytes} {s t bs rest : Bytes}

def encode : Piece → Bytes
  | number _ n => Varint.encode n
  | bytes bs => bs

def encodeAll (ps : List Piece) : Bytes := ps.flatMap encode

/-- All numbers fit their types. -/
def Fit (ps : List Piece) : Prop := ∀ bits n, number bits n ∈ ps → n < 2 ^ bits

/-- The byte string consists of the pieces, with the numbers spelled in the given way. -/
inductive Spelling : List Piece → List Bytes → Bytes → Prop
  | nil : Spelling [] [] []
  | number {bits n : Nat} {v s : Bytes} {ps : List Piece} {vs : List Bytes}
      (spells : Varint.Spells bits n v) (rest : Spelling ps vs s) :
      Spelling (.number bits n :: ps) (v :: vs) (v ++ s)
  | bytes {bs s : Bytes} {ps : List Piece} {vs : List Bytes} (rest : Spelling ps vs s) :
      Spelling (.bytes bs :: ps) vs (bs ++ s)

/-- The pieces are spelled in some way at the front of a buffer. -/
def Front (ps : List Piece) (bs rest : Bytes) : Prop := ∃ vs s, Spelling ps vs s ∧ bs = s ++ rest

@[simp] theorem encodeAll_nil : encodeAll [] = [] := rfl
@[simp] theorem encodeAll_number {bits n : Nat} :
    encodeAll (number bits n :: ps) = Varint.encode n ++ encodeAll ps := rfl
@[simp] theorem encodeAll_bytes : encodeAll (bytes bs :: ps) = bs ++ encodeAll ps := rfl
@[simp] theorem encodeAll_append : encodeAll (ps ++ qs) = encodeAll ps ++ encodeAll qs :=
  List.flatMap_append

@[simp] theorem fit_nil : Fit [] := by
  simp [Fit]

@[simp] theorem fit_number {bits n : Nat} : Fit (number bits n :: ps) ↔ n < 2 ^ bits ∧ Fit ps := by
  simp only [Fit, List.mem_cons, number.injEq]
  constructor
  · exact fun h => ⟨h _ _ (Or.inl ⟨rfl, rfl⟩), fun bits n hn => h bits n (Or.inr hn)⟩
  · rintro ⟨hn, hps⟩ bits n (⟨rfl, rfl⟩ | hmem)
    · exact hn
    · exact hps bits n hmem

@[simp] theorem fit_bytes : Fit (bytes bs :: ps) ↔ Fit ps := by
  simp [Fit]

@[simp] theorem fit_append : Fit (ps ++ qs) ↔ Fit ps ∧ Fit qs := by
  simp only [Fit, List.mem_append]
  constructor
  · exact fun h => ⟨fun bits n hn => h bits n (Or.inl hn), fun bits n hn => h bits n (Or.inr hn)⟩
  · rintro ⟨hp, hq⟩ bits n (hn | hn)
    · exact hp bits n hn
    · exact hq bits n hn

/-- Pieces that fit have their encoding as a spelling. -/
theorem spelling_encodeAll (h : Fit ps) : ∃ vs, Spelling ps vs (encodeAll ps) := by
  induction ps with
  | nil => exact ⟨[], .nil⟩
  | cons p ps ih =>
    cases p with
    | number bits n =>
      obtain ⟨hn, hps⟩ := fit_number.mp h
      obtain ⟨vs, hs⟩ := ih hps
      exact ⟨_, .number (Varint.spells_encode hn) hs⟩
    | bytes bs =>
      obtain ⟨vs, hs⟩ := ih (fit_bytes.mp h)
      exact ⟨vs, .bytes hs⟩

theorem Spelling.fit (h : Spelling ps vs s) : Fit ps := by
  induction h with
  | nil => exact fit_nil
  | number spells _ ih => exact fit_number.mpr ⟨Varint.lt_of_spells spells, ih⟩
  | bytes _ ih => exact fit_bytes.mpr ih

/-- The encoding is no longer than any spelling, and the one in which all numbers are minimal. -/
theorem Spelling.encodeAll (h : Spelling ps vs s) :
    (encodeAll ps).length ≤ s.length ∧ (encodeAll ps = s ↔ ∀ v ∈ vs, Varint.Minimal v) := by
  induction h with
  | nil => simp [Piece.encodeAll]
  | @number bits n v s ps vs spells _ ih =>
    obtain ⟨hle, hiff⟩ := Varint.encode_of_spells spells
    rw [encodeAll_number, List.length_append, List.length_append]
    refine ⟨Nat.add_le_add hle ih.1, ?_⟩
    rw [List.forall_mem_cons, ← hiff, ← ih.2]
    constructor
    · intro he
      have hlength := congrArg List.length he
      rw [List.length_append, List.length_append] at hlength
      exact List.append_inj he (by omega)
    · rintro ⟨rfl, rfl⟩
      rfl
  | @bytes bs s ps vs _ ih =>
    rw [encodeAll_bytes, List.length_append, List.length_append, List.append_cancel_left_eq]
    exact ⟨Nat.add_le_add_left ih.1 _, ih.2⟩

/-! ### Taking pieces off a buffer -/

theorem front_nil : Front [] bs rest ↔ bs = rest := by
  constructor
  · rintro ⟨vs, s, hs, rfl⟩
    cases hs
    rfl
  · rintro rfl
    exact ⟨[], [], .nil, rfl⟩

theorem front_number {bits n : Nat} : Front (number bits n :: ps) bs rest ↔
    ∃ mid, Varint.read bits bs = .ok (n, mid) ∧ Front ps mid rest := by
  simp only [Varint.read_iff]
  constructor
  · rintro ⟨vs, s, hs, rfl⟩
    cases hs with
    | number spells hs =>
      exact ⟨_, ⟨_, spells, List.append_assoc ..⟩, _, _, hs, rfl⟩
  · rintro ⟨mid, ⟨v, spells, rfl⟩, vs, s, hs, rfl⟩
    exact ⟨_, _, .number spells hs, (List.append_assoc ..).symm⟩

theorem front_bytes {xs : Bytes} : Front (bytes xs :: ps) bs rest ↔
    ∃ mid, bs = xs ++ mid ∧ Front ps mid rest := by
  constructor
  · rintro ⟨vs, s, hs, rfl⟩
    cases hs with
    | bytes hs => exact ⟨_, List.append_assoc .., _, _, hs, rfl⟩
  · rintro ⟨mid, rfl, vs, s, hs, rfl⟩
    exact ⟨_, _, .bytes hs, (List.append_assoc ..).symm⟩

theorem front_append : Front (ps ++ qs) bs rest ↔ ∃ mid, Front ps bs mid ∧ Front qs mid rest := by
  induction ps generalizing bs with
  | nil => simp [front_nil]
  | cons p ps ih =>
    cases p with
    | number | bytes =>
      simp only [List.cons_append, front_number, front_bytes, ih]
      constructor
      · rintro ⟨mid, hfirst, m, hp, hq⟩
        exact ⟨m, ⟨mid, hfirst, hp⟩, hq⟩
      · rintro ⟨m, ⟨mid, hfirst, hp⟩, hq⟩
        exact ⟨mid, hfirst, m, hp, hq⟩

/-- The encoding stands at the front of any buffer that begins with it. -/
theorem front_encodeAll (h : Fit ps) : Front ps (encodeAll ps ++ rest) rest := by
  obtain ⟨vs, hs⟩ := spelling_encodeAll h
  exact ⟨vs, _, hs, rfl⟩

end Piece

end Multicast
