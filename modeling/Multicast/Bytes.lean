/-! Byte strings, their UTF-8 reading and little-endian words. -/
namespace Multicast

abbrev Bytes := List UInt8

namespace Bytes

/-- The UTF-8 encoding of a text. -/
def ofText (s : String) : Bytes := s.toUTF8.data.toList

/-- The text a byte string encodes, if it is valid UTF-8. -/
def text? (bs : Bytes) : Option String := String.fromUTF8? ⟨bs.toArray⟩

/-- The low 32 bits of a number, least significant byte first. -/
def ofWord (n : Nat) : Bytes :=
  [UInt8.ofNat n, UInt8.ofNat (n / 256), UInt8.ofNat (n / 65536), UInt8.ofNat (n / 16777216)]

/-- The 32-bit number at the front, and what follows it. -/
def word? : Bytes → Option (Nat × Bytes)
  | a :: b :: c :: d :: rest =>
    some (a.toNat + 256 * b.toNat + 65536 * c.toNat + 16777216 * d.toNat, rest)
  | _ => none

theorem length_ofWord (n : Nat) : (ofWord n).length = 4 := rfl

theorem word?_ofWord {n : Nat} (h : n < UInt32.size) (rest : Bytes) :
    word? (ofWord n ++ rest) = some (n, rest) := by
  change n < 4294967296 at h
  simp [ofWord, word?]
  omega

theorem ofWord_of_word? {bs rest : Bytes} {n : Nat} (h : word? bs = some (n, rest)) :
    bs = ofWord n ++ rest := by
  match bs, h with
  | a :: b :: c :: d :: r, h =>
    simp only [word?, Option.some.injEq, Prod.mk.injEq] at h
    obtain ⟨rfl, rfl⟩ := h
    have ha := a.toNat_lt
    have hb := b.toNat_lt
    have hc := c.toNat_lt
    have hd := d.toNat_lt
    simp only [ofWord, List.cons_append, List.nil_append, List.cons.injEq, and_true]
    refine ⟨?_, ?_, ?_, ?_⟩ <;> apply UInt8.toNat_inj.mp <;> simp <;> omega

theorem word?_eq_none_iff {bs : Bytes} : word? bs = none ↔ bs.length < 4 := by
  match bs with
  | [] | [_] | [_, _] | [_, _, _] | _ :: _ :: _ :: _ :: _ => simp [word?]

end Bytes

end Multicast
