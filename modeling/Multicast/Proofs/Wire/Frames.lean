import Multicast.Wire.Frame
import Multicast.Wire.Handshake

/-! What the front of a buffer holds does not change when more bytes come in behind it. So the
frames of a buffer are those of its parts, in order. -/
namespace Multicast

namespace Bytes

variable {bs rest : Bytes} {n : Nat}

theorem word?_append (h : word? bs = some (n, rest)) (more : Bytes) :
    word? (bs ++ more) = some (n, rest ++ more) := by
  match bs, h with
  | a :: b :: c :: d :: r, h =>
    simp only [word?, Option.some.injEq, Prod.mk.injEq] at h
    obtain ⟨rfl, rfl⟩ := h
    rfl

end Bytes

namespace Frame

variable {max len : Nat} {buffer payload rest : Bytes}

theorem front_append_frame (h : front max buffer = .frame payload rest) (more : Bytes) :
    front max (buffer ++ more) = .frame payload (rest ++ more) := by
  unfold front at h ⊢
  cases hw : buffer.word? with
  | none => simp [hw] at h
  | some p =>
    obtain ⟨len, r⟩ := p
    simp only [hw] at h
    simp only [Bytes.word?_append hw]
    split at h
    · cases h
    · rename_i hfits
      split at h
      · cases h
      · rename_i hlong
        cases h
        have hle : len ≤ r.length := by omega
        have hlong' : ¬ (r ++ more).length < len := by
          rw [List.length_append]
          omega
        rw [if_neg hfits, if_neg hlong', List.take_append_of_le_length hle,
          List.drop_append_of_le_length hle]

theorem front_append_tooLarge (h : front max buffer = .tooLarge len) (more : Bytes) :
    front max (buffer ++ more) = .tooLarge len := by
  unfold front at h ⊢
  cases hw : buffer.word? with
  | none => simp [hw] at h
  | some p =>
    obtain ⟨n, r⟩ := p
    simp only [hw] at h
    simp only [Bytes.word?_append hw]
    split at h
    · rename_i hlarge
      rw [if_pos hlarge, h]
    · split at h <;> cases h

theorem eq_encode_of_front (h : front max buffer = .frame payload rest) :
    buffer = encode payload ++ rest ∧ payload.length ≤ max := by
  unfold front at h
  cases hw : buffer.word? with
  | none => simp [hw] at h
  | some p =>
    obtain ⟨len, r⟩ := p
    simp only [hw] at h
    split at h
    · cases h
    · rename_i hfits
      split at h
      · cases h
      · rename_i hlong
        cases h
        have hlen : (r.take len).length = len := List.length_take_of_le (by omega)
        constructor
        · rw [encode, hlen, List.append_assoc, List.take_append_drop]
          exact Bytes.ofWord_of_word? hw
        · omega

theorem front_encode (hfits : payload.length ≤ max) (hword : payload.length < UInt32.size)
    (rest : Bytes) : front max (encode payload ++ rest) = .frame payload rest := by
  have hlong : ¬ (payload ++ rest).length < payload.length := by
    rw [List.length_append]
    omega
  rw [front, encode, List.append_assoc, Bytes.word?_ofWord hword]
  simp only [if_neg (Nat.not_lt.mpr hfits), if_neg hlong, List.take_left, List.drop_left]

theorem decodeAll_frame (h : front max buffer = .frame payload rest) : decodeAll max buffer =
    { decodeAll max rest with frames := payload :: (decodeAll max rest).frames } := by
  rw [decodeAll]
  split
  · rename_i h'
    cases h.symm.trans h'
    rfl
  all_goals
    rename_i h'
    cases h.symm.trans h'

theorem decodeAll_incomplete (h : front max buffer = .incomplete) :
    decodeAll max buffer = ⟨[], buffer, none⟩ := by
  rw [decodeAll]
  split
  · rename_i h'
    cases h.symm.trans h'
  · rfl
  · rename_i h'
    cases h.symm.trans h'

theorem decodeAll_tooLarge (h : front max buffer = .tooLarge len) :
    decodeAll max buffer = ⟨[], buffer, some len⟩ := by
  rw [decodeAll]
  split
  · rename_i h'
    cases h.symm.trans h'
  · rename_i h'
    cases h.symm.trans h'
  · rename_i h'
    cases h.symm.trans h'
    rfl

/-- The frames are the front of the buffer, none is too large, and no other frame follows. -/
theorem decodeAll_spec (max : Nat) (buffer : Bytes) :
    let d := decodeAll max buffer
    buffer = d.frames.flatMap encode ++ d.rest ∧ (∀ payload ∈ d.frames, payload.length ≤ max) ∧
      front max d.rest = (match d.tooLarge with
        | none => .incomplete
        | some len => .tooLarge len) := by
  induction buffer using decodeAll.induct max with
  | case1 buffer payload rest h ih =>
    obtain ⟨hrest, hfits, hstuck⟩ := ih
    obtain ⟨hbuffer, hpayload⟩ := eq_encode_of_front h
    rw [decodeAll_frame h]
    refine ⟨?_, ?_, hstuck⟩
    · simp only [List.flatMap_cons, List.append_assoc]
      rw [← hrest, ← hbuffer]
    · intro p hp
      rcases List.mem_cons.mp hp with rfl | hp
      · exact hpayload
      · exact hfits p hp
  | case2 buffer h =>
    rw [decodeAll_incomplete h]
    exact ⟨rfl, fun _ hp => (List.not_mem_nil hp).elim, h⟩
  | case3 buffer len h =>
    rw [decodeAll_tooLarge h]
    exact ⟨rfl, fun _ hp => (List.not_mem_nil hp).elim, h⟩

/-- Bytes that come in later add to the frames, unless a length has stopped the reading. -/
theorem decodeAll_append (h : (decodeAll max buffer).tooLarge = none) (more : Bytes) :
    decodeAll max (buffer ++ more) =
      let later := decodeAll max ((decodeAll max buffer).rest ++ more)
      { later with frames := (decodeAll max buffer).frames ++ later.frames } := by
  induction buffer using decodeAll.induct max with
  | case1 buffer payload rest hfront ih =>
    rw [decodeAll_frame hfront] at h ⊢
    rw [decodeAll_frame (front_append_frame hfront more), ih h]
    rfl
  | case2 buffer hfront =>
    rw [decodeAll_incomplete hfront]
    rfl
  | case3 buffer len hfront =>
    rw [decodeAll_tooLarge hfront] at h
    cases h

/-- What comes in after a length that is too large is not read. -/
theorem decodeAll_append_tooLarge (h : (decodeAll max buffer).tooLarge = some len)
    (more : Bytes) : (decodeAll max (buffer ++ more)).frames = (decodeAll max buffer).frames ∧
      (decodeAll max (buffer ++ more)).tooLarge = some len := by
  induction buffer using decodeAll.induct max with
  | case1 buffer payload rest hfront ih =>
    rw [decodeAll_frame hfront] at h ⊢
    rw [decodeAll_frame (front_append_frame hfront more)]
    obtain ⟨hframes, hlarge⟩ := ih h
    exact ⟨congrArg (payload :: ·) hframes, hlarge⟩
  | case2 buffer hfront =>
    rw [decodeAll_incomplete hfront] at h
    cases h
  | case3 buffer n hfront =>
    rw [decodeAll_tooLarge hfront] at h ⊢
    rw [decodeAll_tooLarge (front_append_tooLarge hfront more)]
    exact ⟨rfl, h⟩

/-- The beginning of a run of frames yields the first of them; the others are still to come. -/
theorem decodeAll_of_frames {fs : List Bytes} {more : Bytes} (hmax : max < UInt32.size)
    (hfits : ∀ f ∈ fs, f.length ≤ max) (h : buffer ++ more = fs.flatMap encode) :
    (decodeAll max buffer).tooLarge = none ∧
      ∃ later, fs = (decodeAll max buffer).frames ++ later ∧
        (decodeAll max buffer).rest ++ more = later.flatMap encode := by
  induction fs generalizing buffer with
  | nil =>
    obtain ⟨rfl, rfl⟩ := List.append_eq_nil_iff.mp h
    rw [decodeAll_incomplete rfl]
    exact ⟨rfl, [], rfl, rfl⟩
  | cons f fs ih =>
    obtain ⟨hf, hfs⟩ := List.forall_mem_cons.mp hfits
    rw [List.flatMap_cons] at h
    have hfront : front max (buffer ++ more) = .frame f (fs.flatMap encode) := by
      rw [h, front_encode hf (by omega)]
    cases hbuffer : front max buffer with
    | frame payload rest =>
      rw [front_append_frame hbuffer, Front.frame.injEq] at hfront
      obtain ⟨rfl, hrest⟩ := hfront
      obtain ⟨hnone, later, hlater, hmore⟩ := ih hfs hrest
      rw [decodeAll_frame hbuffer]
      exact ⟨hnone, later, congrArg (payload :: ·) hlater, hmore⟩
    | incomplete =>
      rw [decodeAll_incomplete hbuffer]
      exact ⟨rfl, f :: fs, rfl, h⟩
    | tooLarge len =>
      rw [front_append_tooLarge hbuffer] at hfront
      cases hfront

end Frame

namespace Handshake

variable {buffer address trailer rest : Bytes} {p : Proc} {e : IdentityError}

/-- Behind a complete handshake the bytes make no difference. -/
theorem ofAddress_append (h : ¬ trailer.length < trailerSize) (more : Bytes) :
    ofAddress address (trailer ++ more) =
      match ofAddress address trailer with
      | .identity p rest => .identity p (rest ++ more)
      | .incomplete => .incomplete
      | .invalid e rest => .invalid e (rest ++ more) := by
  match trailer, h with
  | a :: b :: c :: d :: a' :: b' :: c' :: d' :: r, _ =>
    simp only [ofAddress, List.cons_append, Bytes.word?]
    cases Bytes.text? address with
    | none => rfl
    | some text =>
      simp only
      split <;> rfl
  | [], h | [_], h | [_, _], h | [_, _, _], h | [_, _, _, _], h | [_, _, _, _, _], h
  | [_, _, _, _, _, _], h | [_, _, _, _, _, _, _], h => simp [trailerSize] at h

theorem front_append (h : front buffer ≠ .incomplete) (more : Bytes) :
    front (buffer ++ more) =
      match front buffer with
      | .identity p rest => .identity p (rest ++ more)
      | .incomplete => .incomplete
      | .invalid e rest => .invalid e (rest ++ more) := by
  unfold front at h ⊢
  cases hw : buffer.word? with
  | none => simp [hw] at h
  | some q =>
    obtain ⟨len, r⟩ := q
    simp only [hw, ne_eq] at h
    simp only [Bytes.word?_append hw]
    split at h
    · rename_i hlong
      simp only [if_pos hlong]
    · rename_i hlong
      split at h
      · exact (h rfl).elim
      · rename_i hshort
        have hle : len ≤ r.length := by omega
        have hshort' : ¬ (r ++ more).length < len + trailerSize := by
          rw [List.length_append]
          omega
        have htrailer : ¬ (r.drop len).length < trailerSize := by
          rw [List.length_drop]
          omega
        simp only [if_neg hlong, if_neg hshort, if_neg hshort',
          List.take_append_of_le_length hle, List.drop_append_of_le_length hle]
        exact ofAddress_append htrailer more

theorem front_append_identity (h : front buffer = .identity p rest) (more : Bytes) :
    front (buffer ++ more) = .identity p (rest ++ more) := by
  have hfront := front_append (by rw [h]; exact nofun) more
  rwa [h] at hfront

theorem front_append_invalid (h : front buffer = .invalid e rest) (more : Bytes) :
    front (buffer ++ more) = .invalid e (rest ++ more) := by
  have hfront := front_append (by rw [h]; exact nofun) more
  rwa [h] at hfront

end Handshake

end Multicast
