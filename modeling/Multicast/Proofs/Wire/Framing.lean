import Multicast.Proofs.Wire.Frames

/-! Reading frames undoes writing them: it yields what was written before the bytes on which it
stops, and it stops only where no whole frame is left. -/
namespace Multicast

namespace Bytes

variable {bs rest : Bytes} {n : Nat}

theorem lt_of_word? (h : word? bs = some (n, rest)) : n < UInt32.size := by
  match bs, h with
  | a :: b :: c :: d :: r, h =>
    simp only [word?, Option.some.injEq, Prod.mk.injEq] at h
    obtain ⟨rfl, rfl⟩ := h
    have ha := a.toNat_lt
    have hb := b.toNat_lt
    have hc := c.toNat_lt
    have hd := d.toNat_lt
    change _ < 4294967296
    omega

theorem word?_eq_some_iff :
    word? bs = some (n, rest) ↔ n < UInt32.size ∧ bs = ofWord n ++ rest := by
  constructor
  · intro h
    exact ⟨lt_of_word? h, ofWord_of_word? h⟩
  · rintro ⟨hn, rfl⟩
    exact word?_ofWord hn rest

end Bytes

namespace Frame

variable {max len : Nat} {bs buffer payload rest tail : Bytes} {payloads : List Bytes}

def headerSize : Nat := 4

/-- The bytes begin with a header for a payload of `len` bytes. -/
def Declares (bs : Bytes) (len : Nat) : Prop := len < UInt32.size ∧ Bytes.ofWord len <+: bs

/-- The bytes are shorter than a header, or than the frame that their header declares. -/
def Incomplete (bs : Bytes) : Prop :=
  bs.length < headerSize ∨ ∃ len, Declares bs len ∧ bs.length < headerSize + len

theorem declares_iff : Declares bs len ↔ ∃ body, bs.word? = some (len, body) := by
  constructor
  · rintro ⟨hlen, body, rfl⟩
    exact ⟨body, Bytes.word?_ofWord hlen body⟩
  · rintro ⟨body, hword⟩
    obtain ⟨hlen, rfl⟩ := Bytes.word?_eq_some_iff.mp hword
    exact ⟨hlen, List.prefix_append _ _⟩

/-- Bytes have at most one header. -/
theorem Declares.unique {n : Nat} (h : Declares bs len) (h' : Declares bs n) : len = n := by
  obtain ⟨body, hword⟩ := declares_iff.mp h
  obtain ⟨body', hword'⟩ := declares_iff.mp h'
  rw [hword] at hword'
  exact congrArg Prod.fst (Option.some.inj hword')

theorem length_encode (payload : Bytes) :
    (encode payload).length = headerSize + payload.length := by
  rw [encode, List.length_append, Bytes.length_ofWord, headerSize]

/-- The header of a frame that is read declares its payload. -/
theorem declares_of_front (h : front max bs = .frame payload rest) :
    Declares bs payload.length := by
  unfold front at h
  cases hword : bs.word? with
  | none => simp [hword] at h
  | some p =>
    obtain ⟨len, body⟩ := p
    simp only [hword] at h
    split at h
    · cases h
    · split at h
      · cases h
      · rename_i hlong
        cases h
        rw [List.length_take_of_le (Nat.le_of_not_lt hlong)]
        exact declares_iff.mpr ⟨body, hword⟩

/-! ### Why reading stops -/

theorem front_eq_tooLarge_iff : front max bs = .tooLarge len ↔ Declares bs len ∧ max < len := by
  rw [declares_iff, front]
  cases hword : bs.word? with
  | none => simp
  | some p =>
    obtain ⟨n, body⟩ := p
    simp only [Option.some.injEq, Prod.mk.injEq, exists_and_left, exists_eq', and_true]
    split
    · rename_i hlarge
      rw [Front.tooLarge.injEq]
      constructor
      · rintro rfl
        exact ⟨rfl, hlarge⟩
      · exact And.left
    · rename_i hfits
      constructor
      · intro h
        split at h <;> cases h
      · rintro ⟨rfl, hlarge⟩
        exact (hfits hlarge).elim

theorem incomplete_of_front (h : front max bs = .incomplete) : Incomplete bs := by
  unfold front at h
  cases hword : bs.word? with
  | none => exact .inl (Bytes.word?_eq_none_iff.mp hword)
  | some p =>
    obtain ⟨len, body⟩ := p
    simp only [hword] at h
    split at h
    · cases h
    · split at h
      · rename_i hshort
        refine .inr ⟨len, declares_iff.mpr ⟨body, hword⟩, ?_⟩
        rw [Bytes.ofWord_of_word? hword, List.length_append, Bytes.length_ofWord]
        exact Nat.add_lt_add_left hshort _
      · cases h

/-- No frame is read from bytes that do not hold a whole one. -/
theorem Incomplete.front_ne_frame (h : Incomplete bs) : front max bs ≠ .frame payload rest := by
  intro hfront
  have hlength : bs.length = headerSize + payload.length + rest.length := by
    rw [(eq_encode_of_front hfront).1, List.length_append, length_encode]
  rcases h with hshort | ⟨len, hdeclares, hshort⟩
  · omega
  · have hsame : len = payload.length := hdeclares.unique (declares_of_front hfront)
    omega

/-! ### All frames of a buffer -/

/-- The length of each payload that is read fits into a header, so that it can be written again. -/
theorem length_of_mem_decodeAll (hp : payload ∈ (decodeAll max buffer).frames) :
    payload.length < UInt32.size := by
  induction buffer using decodeAll.induct max with
  | case1 buffer first rest hfront ih =>
    rw [decodeAll_frame hfront] at hp
    rcases List.mem_cons.mp hp with rfl | hp
    · exact (declares_of_front hfront).1
    · exact ih hp
  | case2 buffer hfront =>
    rw [decodeAll_incomplete hfront] at hp
    cases hp
  | case3 buffer len hfront =>
    rw [decodeAll_tooLarge hfront] at hp
    cases hp

theorem Incomplete.decodeAll (h : Incomplete tail) :
    (decodeAll max tail).frames = [] ∧ (decodeAll max tail).rest = tail := by
  cases hfront : front max tail with
  | frame payload rest => exact (h.front_ne_frame hfront).elim
  | incomplete =>
    rw [decodeAll_incomplete hfront]
    exact ⟨rfl, rfl⟩
  | tooLarge len =>
    rw [decodeAll_tooLarge hfront]
    exact ⟨rfl, rfl⟩

/-- Payloads that were written are read back, and the bytes behind them are left. -/
theorem decodeAll_encode (hfits : ∀ p ∈ payloads, p.length ≤ max ∧ p.length < UInt32.size)
    (htail : Incomplete tail) :
    let d := decodeAll max (payloads.flatMap encode ++ tail)
    d.frames = payloads ∧ d.rest = tail := by
  induction payloads with
  | nil => exact htail.decodeAll
  | cons payload payloads ih =>
    obtain ⟨⟨hmax, hword⟩, hrest⟩ := List.forall_mem_cons.mp hfits
    obtain ⟨hframes, htail⟩ := ih hrest
    rw [List.flatMap_cons, List.append_assoc, decodeAll_frame (front_encode hmax hword _)]
    exact ⟨congrArg (payload :: ·) hframes, htail⟩

/-- Of any bytes, the frames that are read make up the beginning when they are written again, and
none is too large. Reading stops at a header that declares too much, and otherwise only where no
whole frame is left. Conversely, frames that are written one after another are read back as they
are, whatever incomplete frame follows, which is left as it is. -/
theorem reading_inverts_writing (max : Nat) :
    (∀ buffer, let d := decodeAll max buffer
      d.frames.flatMap encode ++ d.rest = buffer ∧
      (∀ f ∈ d.frames, f.length ≤ max ∧ f.length < UInt32.size) ∧
      (∀ len, d.tooLarge = some len ↔ Declares d.rest len ∧ max < len) ∧
      (d.tooLarge = none → Incomplete d.rest)) ∧
    ∀ payloads tail, (∀ p ∈ payloads, p.length ≤ max ∧ p.length < UInt32.size) →
      Incomplete tail →
      let d := decodeAll max (payloads.flatMap encode ++ tail)
      d.frames = payloads ∧ d.rest = tail := by
  refine ⟨fun buffer => ?_, fun payloads tail hfits htail => decodeAll_encode hfits htail⟩
  intro d
  obtain ⟨hbuffer, hfits, hstop⟩ := decodeAll_spec max buffer
  refine ⟨hbuffer.symm, fun f hf => ⟨hfits f hf, length_of_mem_decodeAll hf⟩, fun len => ?_, ?_⟩
  · rw [← front_eq_tooLarge_iff, hstop]
    cases (decodeAll max buffer).tooLarge <;> simp
  · intro hnone
    rw [show (decodeAll max buffer).tooLarge = none from hnone] at hstop
    exact incomplete_of_front hstop

/-- Three frames, one of them empty and one as large as may be, and the beginning of a fourth. -/
theorem threeFrames_read_back : let payloads : List Bytes := [[1, 2], [], [7, 8, 9]]
    let tail : Bytes := [3, 0, 0, 0, 7]
    (∀ p ∈ payloads, p.length ≤ 3 ∧ p.length < UInt32.size) ∧ Incomplete tail ∧
    (decodeAll 3 (payloads.flatMap encode ++ tail)).frames = payloads := by
  intro payloads tail
  have hfits : ∀ p ∈ payloads, p.length ≤ 3 ∧ p.length < UInt32.size := by decide
  have htail : Incomplete tail := .inr ⟨3, ⟨by decide, by decide⟩, by decide⟩
  exact ⟨hfits, htail, ((reading_inverts_writing 3).2 payloads tail hfits htail).1⟩

end Frame

end Multicast
