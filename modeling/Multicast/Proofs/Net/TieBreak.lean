import Multicast.Net.TieBreak
import Multicast.Proofs.Ascending

/-! The tie-break puts all sockets between two processes into one order, which both ends see. -/
namespace Multicast

namespace SocketAddress
variable {a b c : SocketAddress}

theorem key_injective : Function.Injective key := by
  have hb : Function.Injective UInt8.toNat := fun _ _ h => UInt8.toNat_inj.mp h
  have hs : Function.Injective UInt16.toNat := fun _ _ h => UInt16.toNat_inj.mp h
  intro a b h
  cases a with
  | v4 octets port =>
    cases b with
    | v4 octets' port' =>
      obtain ⟨ho, hp⟩ := List.append_inj' (List.cons.inj h).2 rfl
      rw [(List.map_injective_iff.mpr hb) ho, hs (List.cons.inj hp).1]
    | v6 segments port flow scope => simp [key] at h
  | v6 segments port flow scope =>
    cases b with
    | v4 octets port => simp [key] at h
    | v6 segments' port' flow' scope' =>
      obtain ⟨ho, hp⟩ := List.append_inj' (List.cons.inj h).2 rfl
      simp only [List.cons.injEq, UInt16.toNat_inj, UInt32.toNat_inj, and_true] at hp
      obtain ⟨rfl, rfl, rfl⟩ := hp
      rw [(List.map_injective_iff.mpr hs) ho]

theorem order_eq_iff : a.order b = .eq ↔ a = b := by
  rw [order, lexicographic_eq_iff, key_injective.eq_iff]

theorem order_swap : (a.order b).swap = b.order a := lexicographic_swap ..

theorem order_trans (hab : a.order b = .lt) (hbc : b.order c = .lt) : a.order c = .lt :=
  lexicographic_trans hab hbc

end SocketAddress

namespace ConnectionKey
variable {k l m : ConnectionKey}

/-- Both ends of a socket compute the same canonical key. -/
theorem canonical_reversed : k.reversed.canonical = k.canonical := by
  have hswap := SocketAddress.order_swap (a := k.here) (b := k.there)
  simp only [canonical, reversed]
  cases h : k.here.order k.there with
  | lt => simp [← hswap, h]
  | gt => simp [← hswap, h]
  | eq =>
    have heq : k.here = k.there := SocketAddress.order_eq_iff.mp h
    simp [heq]

theorem isSelfLoop_reversed : k.reversed.isSelfLoop = k.isSelfLoop := by
  simp [isSelfLoop, reversed, eq_comm]

theorem order_eq_iff : k.order l = .eq ↔ k.canonical = l.canonical := by
  rw [order, Ordering.then_eq_eq, SocketAddress.order_eq_iff, SocketAddress.order_eq_iff,
    Prod.ext_iff]

theorem order_swap : (k.order l).swap = l.order k := by
  rw [order, Ordering.swap_then, SocketAddress.order_swap, SocketAddress.order_swap, order]

theorem order_lt_iff : k.order l = .lt ↔ k.canonical.1.order l.canonical.1 = .lt ∨
    k.canonical.1 = l.canonical.1 ∧ k.canonical.2.order l.canonical.2 = .lt := by
  rw [order, Ordering.then_eq_lt, SocketAddress.order_eq_iff]

theorem order_trans (hkl : k.order l = .lt) (hlm : l.order m = .lt) : k.order m = .lt := by
  rw [order_lt_iff] at hkl hlm ⊢
  rcases hkl with hkl | ⟨hkl, hkl'⟩
  · rcases hlm with hlm | ⟨hlm, -⟩
    · exact .inl (SocketAddress.order_trans hkl hlm)
    · exact .inl (hlm ▸ hkl)
  · rcases hlm with hlm | ⟨hlm, hlm'⟩
    · exact .inl (hkl ▸ hlm)
    · exact .inr ⟨hkl.trans hlm, SocketAddress.order_trans hkl' hlm'⟩

/-- Of two different sockets, one comes first. -/
theorem order_lt_or_lt (h : k.canonical ≠ l.canonical) : k.order l = .lt ∨ l.order k = .lt := by
  cases hkl : k.order l with
  | lt => exact .inl rfl
  | eq => exact (h (order_eq_iff.mp hkl)).elim
  | gt =>
    right
    rw [← order_swap, hkl]
    rfl

end ConnectionKey

section
variable {k l : ConnectionKey}

theorem tieBreak_first (hk : k.isSelfLoop = false) (hl : l.isSelfLoop = false)
    (h : k.order l = .lt) : tieBreak (some k) (some l) = .keepFirst := by
  simp [tieBreak, hk, hl, h]

theorem tieBreak_second (hk : k.isSelfLoop = false) (hl : l.isSelfLoop = false)
    (h : l.order k = .lt) : tieBreak (some k) (some l) = .keepSecond := by
  have hkl : k.order l = .gt := by
    rw [← ConnectionKey.order_swap, h]
    rfl
  simp [tieBreak, hk, hl, hkl]

end

end Multicast
