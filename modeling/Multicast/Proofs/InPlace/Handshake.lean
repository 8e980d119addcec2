import Multicast.Proofs.InPlace.Basic
import Multicast.Proofs.Wire.Framing
import Multicast.Proofs.Wire.Handshakes

/-! Reading a handshake takes it off a buffer one part after another. What is read is what was
written, whatever follows it. A buffer on which the reading fails keeps what has not been taken off
by then. -/
namespace Multicast

namespace Bytes

variable {ε : Type} {as bs : Bytes} {n : Nat}

/-- Takes the first bytes off a buffer. -/
def takeOff (n : Nat) : EStateM ε Bytes Bytes :=
  modifyGet fun buffer => (buffer.take n, buffer.drop n)

/-- Takes a word off a buffer that holds one. -/
def takeWord : EStateM ε Bytes Nat := modifyGet fun buffer => buffer.word?.getD (0, buffer)

theorem run_takeOff (h : as.length = n) :
    (takeOff n : EStateM ε Bytes Bytes).run (as ++ bs) = .ok as bs := by
  subst h
  simp [takeOff]

theorem run_takeWord (h : n < UInt32.size) :
    (takeWord : EStateM ε Bytes Nat).run (ofWord n ++ bs) = .ok n bs := by
  simp [takeWord, word?_ofWord h]

end Bytes

namespace Handshake

variable {buffer address rest : Bytes} {len port incarnation : Nat} {p q : Proc}

/-- Takes a handshake off a buffer, unless it is not complete. -/
def takeInPlace : EStateM IdentityError Bytes (Option Proc) := do
  let buffer ← get
  match buffer.word? with
  | none => return none
  | some (len, _) =>
    if maxAddress < len then throw (.hostnameTooLong len maxAddress)
    else if buffer.length < Frame.headerSize + len + trailerSize then return none
    else
      let _ ← Bytes.takeOff Frame.headerSize
      let address ← Bytes.takeOff len
      match Bytes.text? address with
      | none => throw .invalidHostname
      | some address =>
        let port ← Bytes.takeWord
        let incarnation ← Bytes.takeWord
        if port < 65536 then
          return some ⟨address, UInt16.ofNat port, UInt32.ofNat incarnation⟩
        else throw (.portOutOfRange port)

/-- How taking a handshake off is to end, and what is then left in the buffer. -/
def Front.ending (buffer : Bytes) : Front → EStateM.Result IdentityError Bytes (Option Proc)
  | .identity p rest => .ok (some p) rest
  | .incomplete => .ok none buffer
  | .invalid e rest => .error e rest

/-! ### What a buffer can begin with -/

/-- A buffer begins with all parts of a handshake, whether or not they name a process. -/
structure Holds (buffer address : Bytes) (port incarnation : Nat) (rest : Bytes) : Prop where
  short : address.length ≤ maxAddress
  port_lt : port < UInt32.size
  incarnation_lt : incarnation < UInt32.size
  bytes : buffer = Bytes.ofWord address.length ++ (address ++
    (Bytes.ofWord port ++ (Bytes.ofWord incarnation ++ rest)))

/-- A buffer is shorter than a length, or than the handshake that its length declares. -/
def Incomplete (buffer : Bytes) : Prop :=
  buffer.length < Frame.headerSize ∨ ∃ len ≤ maxAddress, Frame.Declares buffer len ∧
    buffer.length < Frame.headerSize + len + trailerSize

theorem encode_append (p : Proc) (rest : Bytes) :
    encode p ++ rest = Bytes.ofWord (Bytes.ofText p.address).length ++ (Bytes.ofText p.address ++
      (Bytes.ofWord p.port.toNat ++ (Bytes.ofWord p.incarnation.toNat ++ rest))) := by
  simp only [encode, List.append_assoc]

theorem Holds.word? (h : Holds buffer address port incarnation rest) :
    buffer.word? = some (address.length,
      address ++ (Bytes.ofWord port ++ (Bytes.ofWord incarnation ++ rest))) := by
  rw [h.bytes]
  exact Bytes.word?_ofWord (Nat.lt_of_le_of_lt h.short (by decide)) _

theorem Holds.length_eq (h : Holds buffer address port incarnation rest) :
    buffer.length = Frame.headerSize + address.length + trailerSize + rest.length := by
  rw [h.bytes]
  simp only [List.length_append, Bytes.length_ofWord, Frame.headerSize, trailerSize]
  omega

/-- A word stands in front of any four bytes. -/
theorem exists_word (h : Frame.headerSize ≤ buffer.length) :
    ∃ n rest, n < UInt32.size ∧ buffer = Bytes.ofWord n ++ rest ∧
      buffer.length = Frame.headerSize + rest.length := by
  cases hword : buffer.word? with
  | none => exact (Nat.not_lt.mpr h (Bytes.word?_eq_none_iff.mp hword)).elim
  | some q =>
    obtain ⟨hn, hbuffer⟩ := Bytes.word?_eq_some_iff.mp hword
    have hsize := congrArg List.length hbuffer
    rw [List.length_append, Bytes.length_ofWord] at hsize
    exact ⟨q.1, q.2, hn, hbuffer, hsize⟩

/-- Each buffer is incomplete, or declares too long an address, or holds a handshake. -/
theorem incomplete_or_long_or_holds (buffer : Bytes) :
    Incomplete buffer ∨ (∃ len, Frame.Declares buffer len ∧ maxAddress < len) ∨
      ∃ address port incarnation rest, Holds buffer address port incarnation rest := by
  by_cases hheader : buffer.length < Frame.headerSize
  · exact .inl (.inl hheader)
  obtain ⟨len, body, hlen, hbuffer, hsize⟩ := exists_word (Nat.le_of_not_lt hheader)
  have hdeclares : Frame.Declares buffer len := ⟨hlen, body, hbuffer.symm⟩
  by_cases hlong : maxAddress < len
  · exact .inr (.inl ⟨len, hdeclares, hlong⟩)
  by_cases hshort : buffer.length < Frame.headerSize + len + trailerSize
  · exact .inl (.inr ⟨len, Nat.le_of_not_lt hlong, hdeclares, hshort⟩)
  have hroom : len + trailerSize ≤ body.length := by omega
  have htrailer : (body.drop len).length = body.length - len := List.length_drop
  have hport : Frame.headerSize ≤ (body.drop len).length := by
    simp only [htrailer, Frame.headerSize, trailerSize] at *
    omega
  obtain ⟨port, behind, hport, hdrop, hsize'⟩ := exists_word hport
  have hincarnation : Frame.headerSize ≤ behind.length := by
    simp only [htrailer, Frame.headerSize, trailerSize] at *
    omega
  obtain ⟨incarnation, rest, hincarnation, hbehind, -⟩ := exists_word hincarnation
  have htake : (body.take len).length = len :=
    List.length_take_of_le (Nat.le_of_add_right_le hroom)
  refine .inr (.inr ⟨body.take len, port, incarnation, rest, ?_, hport, hincarnation, ?_⟩)
  · rw [htake]
    exact Nat.le_of_not_lt hlong
  · rw [htake, ← hbehind, ← hdrop, List.take_append_drop, hbuffer]

/-! ### What is read in each case -/

theorem front_of_incomplete (h : Incomplete buffer) : front buffer = .incomplete := by
  rcases h with hheader | ⟨len, hfits, hdeclares, hshort⟩
  · rw [front, Bytes.word?_eq_none_iff.mpr hheader]
  · obtain ⟨hlen, body, rfl⟩ := hdeclares
    have hroom : body.length < len + trailerSize := by
      rw [List.length_append, Bytes.length_ofWord, Frame.headerSize] at hshort
      omega
    rw [front, Bytes.word?_ofWord hlen]
    dsimp only
    rw [if_neg (Nat.not_lt.mpr hfits), if_pos hroom]

theorem front_of_long (h : Frame.Declares buffer len) (hlong : maxAddress < len) :
    front buffer = .invalid (.hostnameTooLong len maxAddress) buffer := by
  obtain ⟨body, hword⟩ := Frame.declares_iff.mp h
  rw [front, hword]
  exact if_pos hlong

theorem Holds.front_eq (h : Holds buffer address port incarnation rest) :
    front buffer =
      match Bytes.text? address with
      | none => .invalid .invalidHostname
          (Bytes.ofWord port ++ (Bytes.ofWord incarnation ++ rest))
      | some address =>
        if port < 65536 then
          .identity ⟨address, UInt16.ofNat port, UInt32.ofNat incarnation⟩ rest
        else .invalid (.portOutOfRange port) rest := by
  have hroom : ¬ (address ++ (Bytes.ofWord port ++ (Bytes.ofWord incarnation ++ rest))).length <
      address.length + trailerSize := by
    simp only [List.length_append, Bytes.length_ofWord, trailerSize]
    omega
  rw [front, h.word?]
  dsimp only
  rw [if_neg (Nat.not_lt.mpr h.short), if_neg hroom, List.take_left, List.drop_left, ofAddress]
  cases Bytes.text? address with
  | none => rfl
  | some address =>
    dsimp only
    rw [Bytes.word?_ofWord h.port_lt]
    dsimp only
    rw [Bytes.word?_ofWord h.incarnation_lt]

/-- Taking the parts off one after another comes to the same as reading the whole. -/
theorem run_takeInPlace (buffer : Bytes) :
    takeInPlace.run buffer = (front buffer).ending buffer := by
  rcases incomplete_or_long_or_holds buffer with hmore | ⟨len, hdeclares, hlong⟩ |
    ⟨address, port, incarnation, rest, h⟩
  · rw [front_of_incomplete hmore]
    rcases hmore with hheader | ⟨len, hfits, hdeclares, hshort⟩
    · simp only [takeInPlace, EStateM.run_bind, EStateM.run_get,
        Bytes.word?_eq_none_iff.mpr hheader]
      rfl
    · obtain ⟨body, hword⟩ := Frame.declares_iff.mp hdeclares
      simp only [takeInPlace, EStateM.run_bind, EStateM.run_get, hword,
        if_neg (Nat.not_lt.mpr hfits), if_pos hshort]
      rfl
  · obtain ⟨body, hword⟩ := Frame.declares_iff.mp hdeclares
    simp only [takeInPlace, EStateM.run_bind, EStateM.run_get, hword, if_pos hlong,
      front_of_long hdeclares hlong]
    rfl
  · have hroom : ¬ buffer.length < Frame.headerSize + address.length + trailerSize := by
      rw [h.length_eq]
      omega
    simp only [takeInPlace, EStateM.run_bind, EStateM.run_get, h.word?,
      if_neg (Nat.not_lt.mpr h.short), if_neg hroom, h.front_eq]
    rw [h.bytes, Bytes.run_takeOff (n := Frame.headerSize) rfl]
    dsimp only
    rw [Bytes.run_takeOff rfl]
    dsimp only
    cases Bytes.text? address with
    | none => rfl
    | some address =>
      simp only [EStateM.run_bind, Bytes.run_takeWord h.port_lt,
        Bytes.run_takeWord h.incarnation_lt]
      split <;> rfl

/-! ### Which bytes are read -/

/-- What is wrong with a handshake, and what is left of a buffer that begins with it. If neither the
address nor the port is right, it is the address that counts. -/
inductive Fails (buffer : Bytes) : IdentityError → Bytes → Prop where
  | long {len : Nat} (h : Frame.Declares buffer len) (hlong : maxAddress < len) :
    Fails buffer (.hostnameTooLong len maxAddress) buffer
  | garbled {address rest : Bytes} {port incarnation : Nat}
    (h : Holds buffer address port incarnation rest) (hgarbled : ∀ s, Bytes.ofText s ≠ address) :
    Fails buffer .invalidHostname (Bytes.ofWord port ++ (Bytes.ofWord incarnation ++ rest))
  | outOfRange {address : String} {rest : Bytes} {port incarnation : Nat}
    (h : Holds buffer (Bytes.ofText address) port incarnation rest) (hport : 65536 ≤ port) :
    Fails buffer (.portOutOfRange port) rest

theorem Fails.front_eq {e : IdentityError} (h : Fails buffer e rest) :
    front buffer = .invalid e rest := by
  cases h with
  | long h hlong => exact front_of_long h hlong
  | garbled h hgarbled =>
    have hnone : Bytes.text? _ = none := Option.eq_none_iff_forall_ne_some.mpr fun s hs =>
      hgarbled s (Codec.text?_eq_some.mp hs).symm
    rw [h.front_eq, hnone]
  | outOfRange h hport =>
    rw [h.front_eq, Codec.text?_eq_some.mpr rfl]
    exact if_neg (Nat.not_lt.mpr hport)

/-- What a buffer is to be read as. -/
inductive Reads (buffer : Bytes) : Front → Prop where
  | incomplete (h : Incomplete buffer) : Reads buffer .incomplete
  | identity {p : Proc} {rest : Bytes} (hp : p.Fits) (h : buffer = encode p ++ rest) :
    Reads buffer (.identity p rest)
  | invalid {e : IdentityError} {rest : Bytes} (h : Fails buffer e rest) :
    Reads buffer (.invalid e rest)

theorem Reads.front_eq {f : Front} (h : Reads buffer f) : front buffer = f := by
  cases h with
  | incomplete h => exact front_of_incomplete h
  | identity hp h =>
    rw [h]
    exact front_encode hp _
  | invalid h => exact h.front_eq

theorem Holds.reads (h : Holds buffer address port incarnation rest) : ∃ f, Reads buffer f := by
  cases htext : Bytes.text? address with
  | none =>
    refine ⟨_, .invalid (.garbled h fun s hs => ?_)⟩
    rw [Codec.text?_eq_some.mpr hs.symm] at htext
    cases htext
  | some text =>
    obtain rfl := Codec.text?_eq_some.mp htext
    by_cases hport : port < 65536
    · have hport16 : (UInt16.ofNat port).toNat = port := UInt16.toNat_ofNat_of_lt hport
      have hincarnation : (UInt32.ofNat incarnation).toNat = incarnation :=
        UInt32.toNat_ofNat_of_lt h.incarnation_lt
      refine ⟨.identity ⟨text, UInt16.ofNat port, UInt32.ofNat incarnation⟩ rest,
        .identity h.short ?_⟩
      rw [encode_append, hport16, hincarnation]
      exact h.bytes
    · exact ⟨_, .invalid (.outOfRange h (Nat.le_of_not_lt hport))⟩

theorem exists_reads (buffer : Bytes) : ∃ f, Reads buffer f := by
  rcases incomplete_or_long_or_holds buffer with hmore | ⟨len, hdeclares, hlong⟩ |
    ⟨address, port, incarnation, rest, h⟩
  · exact ⟨_, .incomplete hmore⟩
  · exact ⟨_, .invalid (.long hdeclares hlong)⟩
  · exact h.reads

theorem front_eq_iff {f : Front} : front buffer = f ↔ Reads buffer f := by
  constructor
  · rintro rfl
    obtain ⟨f, hf⟩ := exists_reads buffer
    rwa [hf.front_eq]
  · exact Reads.front_eq

theorem front_eq_identity_iff :
    front buffer = .identity p rest ↔ p.Fits ∧ buffer = encode p ++ rest := by
  rw [front_eq_iff]
  constructor
  · rintro (_ | ⟨hp, h⟩)
    exact ⟨hp, h⟩
  · rintro ⟨hp, h⟩
    exact .identity hp h

theorem front_eq_incomplete_iff : front buffer = .incomplete ↔ Incomplete buffer := by
  rw [front_eq_iff]
  constructor
  · rintro ⟨h⟩
    exact h
  · exact .incomplete

theorem front_eq_invalid_iff {e : IdentityError} :
    front buffer = .invalid e rest ↔ Fails buffer e rest := by
  rw [front_eq_iff]
  constructor
  · rintro (_ | _ | h)
    exact h
  · exact .invalid

/-- Exactly the encodings of identities are taken off a buffer, and what follows one is left as it
is. No buffer begins with two of them. A buffer that is not complete is left as it is, and one that
is wrong as `Fails` says. -/
theorem taken_exactly (buffer : Bytes) :
    takeInPlace.run buffer = (front buffer).ending buffer ∧
    (∀ p rest, takeInPlace.run buffer = .ok (some p) rest ↔
      p.Fits ∧ buffer = encode p ++ rest) ∧
    (∀ p q rest rest', p.Fits ∧ buffer = encode p ++ rest → q.Fits ∧ buffer = encode q ++ rest' →
      p = q ∧ rest = rest') ∧
    (∀ rest, takeInPlace.run buffer = .ok none rest ↔ Incomplete buffer ∧ rest = buffer) ∧
    ∀ e rest, takeInPlace.run buffer = .error e rest ↔ Fails buffer e rest := by
  have hrun := run_takeInPlace buffer
  refine ⟨hrun, fun p rest => ?_, fun p q rest rest' hp hq => ?_, fun rest => ?_, fun e rest => ?_⟩
  · rw [hrun, ← front_eq_identity_iff]
    cases front buffer <;> simp [Front.ending]
  · have hsame := (front_eq_identity_iff.mpr hp).symm.trans (front_eq_identity_iff.mpr hq)
    exact Front.identity.inj hsame
  · rw [hrun, ← front_eq_incomplete_iff]
    cases front buffer <;> simp [Front.ending, eq_comm]
  · rw [hrun, ← front_eq_invalid_iff]
    cases front buffer <;> simp [Front.ending]

/-- The identity of a process with a two-byte port, and the beginning of a frame behind it. -/
theorem taken_before_frame : let p : Proc := ⟨"ab", 258, 7⟩
    let rest : Bytes := [3, 0, 0, 0, 97]
    p.Fits ∧ takeInPlace.run (encode p ++ rest) = .ok (some p) rest ∧
    ∀ q rest', q.Fits ∧ encode p ++ rest = encode q ++ rest' → p = q ∧ rest = rest' := by
  intro p rest
  have hp : p.Fits := by decide
  obtain ⟨-, htaken, hunique, -⟩ := taken_exactly (encode p ++ rest)
  exact ⟨hp, (htaken p rest).mpr ⟨hp, rfl⟩, fun q rest' => hunique p q rest rest' ⟨hp, rfl⟩⟩

end Handshake

end Multicast
