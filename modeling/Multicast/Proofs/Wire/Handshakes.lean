import Multicast.Proofs.Wire.Codec
import Multicast.Proofs.Wire.Frames

/-! A handshake is read back from its encoding, and not before all of it is there. -/
namespace Multicast

namespace Proc

/-- The address fits in a handshake. -/
def Fits (p : Proc) : Prop := (Bytes.ofText p.address).length ≤ Handshake.maxAddress

instance {p : Proc} : Decidable p.Fits :=
  inferInstanceAs (Decidable ((Bytes.ofText p.address).length ≤ Handshake.maxAddress))

end Proc

namespace Handshake

variable {p : Proc} {buffer more rest : Bytes}

theorem ofAddress_encode (p : Proc) (rest : Bytes) :
    ofAddress (Bytes.ofText p.address)
      (Bytes.ofWord p.port.toNat ++ (Bytes.ofWord p.incarnation.toNat ++ rest)) =
        .identity p rest := by
  have hport : p.port.toNat < 65536 := p.port.toNat_lt
  have hword : p.port.toNat < UInt32.size := Nat.lt_trans hport (by decide)
  have hincarnation : p.incarnation.toNat < UInt32.size := p.incarnation.toNat_lt
  rw [ofAddress, Codec.text?_eq_some.mpr rfl]
  dsimp only
  rw [Bytes.word?_ofWord hword]
  dsimp only
  rw [Bytes.word?_ofWord hincarnation]
  dsimp only
  rw [if_pos hport, UInt16.ofNat_toNat, UInt32.ofNat_toNat]

theorem front_encode (h : p.Fits) (rest : Bytes) : front (encode p ++ rest) = .identity p rest := by
  have hlong : ¬ maxAddress < (Bytes.ofText p.address).length := Nat.not_lt.mpr h
  have hword : (Bytes.ofText p.address).length < UInt32.size := Nat.lt_of_le_of_lt h (by decide)
  rw [encode, List.append_assoc, List.append_assoc, List.append_assoc, front,
    Bytes.word?_ofWord hword]
  dsimp only
  have hshort : ¬ (Bytes.ofText p.address ++ (Bytes.ofWord p.port.toNat ++
      (Bytes.ofWord p.incarnation.toNat ++ rest))).length <
        (Bytes.ofText p.address).length + trailerSize := by
    simp only [List.length_append, Bytes.length_ofWord, trailerSize]
    omega
  rw [if_neg hlong, if_neg hshort, List.take_left, List.drop_left]
  exact ofAddress_encode p rest

/-- The beginning of a stream that starts with a handshake: either the handshake is not complete,
or it is read and what has come in behind it is left. -/
theorem front_of_encode (h : p.Fits) (hstream : buffer ++ more = encode p ++ rest) :
    (front buffer = .incomplete ∧ buffer.length < (encode p).length) ∨
      ∃ left, front buffer = .identity p left ∧ buffer = encode p ++ left ∧
        rest = left ++ more := by
  have hfront : front (buffer ++ more) = .identity p rest := by
    rw [hstream]
    exact front_encode h rest
  cases hbuffer : front buffer with
  | incomplete =>
    refine .inl ⟨rfl, Nat.lt_of_not_le fun hle => ?_⟩
    have hprefix : encode p <+: buffer :=
      List.prefix_of_prefix_length_le ⟨rest, hstream.symm⟩ (List.prefix_append buffer more) hle
    obtain ⟨left, rfl⟩ := hprefix
    rw [front_encode h] at hbuffer
    cases hbuffer
  | invalid e left =>
    rw [front_append_invalid hbuffer] at hfront
    cases hfront
  | identity peer left =>
    rw [front_append_identity hbuffer, Front.identity.injEq] at hfront
    obtain ⟨rfl, rfl⟩ := hfront
    rw [← List.append_assoc] at hstream
    exact .inr ⟨left, rfl, List.append_cancel_right hstream, rfl⟩

end Handshake

end Multicast
