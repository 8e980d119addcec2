import Multicast.Proc
import Multicast.Proofs.Text.Decimal

/-! The texts that name a process. Each is cut at its last two colons, and each process whose
address is not empty is read back from its own text. -/
namespace Multicast.Proc

variable {s : String} {p q : Proc}

/-- The parts of a text before, between and behind two colons. -/
structure Fields where
  address : String
  port : String
  incarnation : String

namespace Fields

variable {f g : Fields}

def text (f : Fields) : String := f.address ++ ":" ++ f.port ++ ":" ++ f.incarnation

/-- The fields are those of some process. -/
structure Valid (f : Fields) : Prop where
  named : f.address ≠ ""
  port : ∃ n ≤ 65535, Decimal.Spells f.port.toList n
  incarnation : ∃ n ≤ 4294967295, Decimal.Spells f.incarnation.toList n

/-- The fields are those of this process. -/
structure Names (f : Fields) (p : Proc) : Prop where
  named : f.address ≠ ""
  address : f.address = p.address
  port : Decimal.Spells f.port.toList p.port.toNat
  incarnation : Decimal.Spells f.incarnation.toList p.incarnation.toNat

theorem toList_text (f : Fields) : f.text.toList =
    (f.address.toList ++ ':' :: f.port.toList) ++ ':' :: f.incarnation.toList := by
  simp [text, String.toList_append]

theorem Names.valid (h : f.Names p) : f.Valid where
  named := h.named
  port := ⟨_, Nat.le_of_lt_succ p.port.toNat_lt, h.port⟩
  incarnation := ⟨_, Nat.le_of_lt_succ p.incarnation.toNat_lt, h.incarnation⟩

theorem names_of_spells {m n : Nat} (hnamed : f.address ≠ "") (hm : m ≤ 65535)
    (hport : Decimal.Spells f.port.toList m) (hn : n ≤ 4294967295)
    (hincarnation : Decimal.Spells f.incarnation.toList n) :
    f.Names ⟨f.address, UInt16.ofNat m, UInt32.ofNat n⟩ := by
  have hm' : (UInt16.ofNat m).toNat = m := UInt16.toNat_ofNat_of_lt (Nat.lt_succ_of_le hm)
  have hn' : (UInt32.ofNat n).toNat = n := UInt32.toNat_ofNat_of_lt (Nat.lt_succ_of_le hn)
  exact ⟨hnamed, rfl, hm'.symm ▸ hport, hn'.symm ▸ hincarnation⟩

theorem Valid.names (h : f.Valid) : ∃ p, f.Names p := by
  obtain ⟨m, hm, hport⟩ := h.port
  obtain ⟨n, hn, hincarnation⟩ := h.incarnation
  exact ⟨_, names_of_spells h.named hm hport hn hincarnation⟩

/-- The colons before and behind the port are the last two. -/
theorem Valid.colons (h : f.Valid) : ':' ∉ f.port.toList ∧ ':' ∉ f.incarnation.toList := by
  obtain ⟨m, -, hport⟩ := h.port
  obtain ⟨n, -, hincarnation⟩ := h.incarnation
  exact ⟨hport.not_mem (by decide) (by decide), hincarnation.not_mem (by decide) (by decide)⟩

theorem Valid.last?_text (h : f.Valid) : Split.last? ':' f.text.toList =
    some (f.address.toList ++ ':' :: f.port.toList, f.incarnation.toList) := by
  rw [toList_text]
  exact Split.last?_append_cons h.colons.2

theorem Valid.last?_front (h : f.Valid) :
    Split.last? ':' (f.address.toList ++ ':' :: f.port.toList) =
      some (f.address.toList, f.port.toList) := Split.last?_append_cons h.colons.1

theorem Valid.unique (hf : f.Valid) (hg : g.Valid) (h : f.text = g.text) : f = g := by
  have hlast := hf.last?_text
  rw [h, hg.last?_text, Option.some.injEq, Prod.mk.injEq] at hlast
  obtain ⟨hfront, hincarnation⟩ := hlast
  have hlast := hf.last?_front
  rw [← hfront, hg.last?_front, Option.some.injEq, Prod.mk.injEq] at hlast
  obtain ⟨haddress, hport⟩ := hlast
  obtain ⟨a, m, n⟩ := f
  obtain ⟨a', m', n'⟩ := g
  obtain rfl := String.toList_injective haddress
  obtain rfl := String.toList_injective hport
  obtain rfl := String.toList_injective hincarnation
  rfl

end Fields

theorem ofChars?_text {f : Fields} (h : f.Names p) : ofChars? f.text.toList = some p := by
  have hport := Decimal.read?_eq_some_iff.mpr ⟨h.port, Nat.le_of_lt_succ p.port.toNat_lt⟩
  have hincarnation := Decimal.read?_eq_some_iff.mpr
    ⟨h.incarnation, Nat.le_of_lt_succ p.incarnation.toNat_lt⟩
  have hnamed : f.address.toList ≠ [] := fun he => h.named (String.toList_eq_nil_iff.mp he)
  have hlast := h.valid.last?_text
  have hfront := h.valid.last?_front
  obtain ⟨address, port, incarnation⟩ := p
  obtain rfl : f.address = address := h.address
  simp only [ofChars?, Option.bind_eq_bind, hlast, Option.bind_some, hfront, if_neg hnamed, hport,
    hincarnation, String.ofList_toList, UInt16.ofNat_toNat, UInt32.ofNat_toNat]
  rfl

/-- A text is read as a process if two cuts at the last colon yield the fields of that process. -/
theorem names_of_ofChars? {cs : List Char} (h : ofChars? cs = some p) :
    ∃ f : Fields, cs = f.text.toList ∧ f.Names p := by
  simp only [ofChars?, Option.bind_eq_bind, Option.bind_eq_some_iff] at h
  obtain ⟨⟨front, incarnation⟩, hlast, ⟨address, port⟩, hfront, h⟩ := h
  dsimp only at hfront h
  split at h
  · cases h
  · rename_i hnamed
    simp only [Option.bind_eq_some_iff] at h
    obtain ⟨m, hport, n, hincarnation, h⟩ := h
    obtain ⟨hport, hm⟩ := Decimal.read?_eq_some_iff.mp hport
    obtain ⟨hincarnation, hn⟩ := Decimal.read?_eq_some_iff.mp hincarnation
    obtain rfl := Option.some.inj h
    refine ⟨⟨String.ofList address, String.ofList port, String.ofList incarnation⟩, ?_,
      Fields.names_of_spells ?_ hm ?_ hn ?_⟩
    · rw [(Split.eq_of_last? hlast).1, (Split.eq_of_last? hfront).1, Fields.toList_text]
      simp only [String.toList_ofList]
    · exact fun he => hnamed (String.ofList_eq_empty_iff.mp he)
    · rwa [String.toList_ofList]
    · rwa [String.toList_ofList]

theorem ofChars?_eq_some_iff :
    ofChars? s.toList = some p ↔ ∃ f : Fields, s = f.text ∧ f.Names p := by
  constructor
  · intro h
    obtain ⟨f, hs, hf⟩ := names_of_ofChars? h
    exact ⟨f, String.toList_injective hs, hf⟩
  · rintro ⟨f, rfl, hf⟩
    exact ofChars?_text hf

example : ofChars? "::1:+09000:002".toList = some ⟨"::1", 9000, 2⟩ := by decide

theorem parse_eq_ok_iff : parse s = .ok p ↔ ∃ f : Fields, s = f.text ∧ f.Names p := by
  rw [← ofChars?_eq_some_iff, parse]
  cases ofChars? s.toList <;> simp

theorem parse_eq_error_iff {e : IdentityError} : parse s = .error e ↔
    e = .invalidProcess s ∧ ∀ f : Fields, s = f.text → ¬ f.Valid := by
  have hnone : ofChars? s.toList = none ↔ ∀ f : Fields, s = f.text → ¬ f.Valid := by
    rw [Option.eq_none_iff_forall_ne_some]
    constructor
    · intro hnone f hs hf
      obtain ⟨p, hp⟩ := hf.names
      exact hnone p (ofChars?_eq_some_iff.mpr ⟨f, hs, hp⟩)
    · intro hnone p hp
      obtain ⟨f, hs, hf⟩ := ofChars?_eq_some_iff.mp hp
      exact hnone f hs hf.valid
  rw [← hnone, parse]
  cases ofChars? s.toList <;> simp [eq_comm]

/-- The fields that a process shows in its text. -/
def fields (p : Proc) : Fields := ⟨p.address, toString p.port.toNat, toString p.incarnation.toNat⟩

theorem names_fields (h : p.address ≠ "") : p.fields.Names p where
  named := h
  address := rfl
  port := Decimal.spells_toString _
  incarnation := Decimal.spells_toString _

theorem ofChars?_shown (h : p.address ≠ "") : ofChars? p.text.toList = some p :=
  ofChars?_eq_some_iff.mpr ⟨p.fields, rfl, names_fields h⟩

theorem parse_text (h : p.address ≠ "") : parse p.text = .ok p :=
  parse_eq_ok_iff.mpr ⟨p.fields, rfl, names_fields h⟩

/-- A process with an address is read back from its text. A text is read as a process exactly if it
is cut into an address that is not empty, a port and an incarnation, the numbers spelled with or
without a plus sign and zeros in front; any other is refused. There is only one such cut, at the
last two colons, so that no two processes show the same text. -/
theorem text_read_exactly :
    (∀ p : Proc, p.address ≠ "" → parse p.text = .ok p) ∧
    (∀ s p, parse s = .ok p ↔ ∃ f : Fields, s = f.text ∧ f.Names p) ∧
    (∀ s, (∃ p, parse s = .ok p) ↔ ∃ f : Fields, s = f.text ∧ f.Valid) ∧
    (∀ s e, parse s = .error e ↔ e = .invalidProcess s ∧ ∀ f : Fields, s = f.text → ¬ f.Valid) ∧
    (∀ f g : Fields, f.Valid → g.Valid → f.text = g.text → f = g) ∧
    (∀ f : Fields, f.Valid → ':' ∉ f.port.toList ∧ ':' ∉ f.incarnation.toList) ∧
    ∀ p q : Proc, p.address ≠ "" → q.address ≠ "" → p.text = q.text → p = q := by
  refine ⟨fun p hp => parse_text hp, fun s p => parse_eq_ok_iff, fun s => ?_,
    fun s e => parse_eq_error_iff, fun f g hf hg h => hf.unique hg h, fun f hf => hf.colons, ?_⟩
  · constructor
    · rintro ⟨p, hp⟩
      obtain ⟨f, hs, hf⟩ := parse_eq_ok_iff.mp hp
      exact ⟨f, hs, hf.valid⟩
    · rintro ⟨f, hs, hf⟩
      obtain ⟨p, hp⟩ := hf.names
      exact ⟨p, parse_eq_ok_iff.mpr ⟨f, hs, hp⟩⟩
  · intro p q hp hq h
    have hread := parse_text hp
    rw [h, parse_text hq] at hread
    exact (Except.ok.inj hread).symm

/-- An address with colons of its own, and another incarnation at the same endpoint. -/
theorem colons_read_back : let p : Proc := ⟨"::1", 9000, 2⟩
    let q : Proc := ⟨"::1", 9000, 3⟩
    p.address ≠ "" ∧ q.address ≠ "" ∧ parse p.text = .ok p ∧ p.text ≠ q.text := by
  intro p q
  obtain ⟨hread, -, -, -, -, -, hdistinct⟩ := text_read_exactly
  have hp : p.address ≠ "" := by decide
  have hq : q.address ≠ "" := by decide
  have hne : p ≠ q := by decide
  exact ⟨hp, hq, hread p hp, fun h => hne (hdistinct p q hp hq h)⟩

end Multicast.Proc
