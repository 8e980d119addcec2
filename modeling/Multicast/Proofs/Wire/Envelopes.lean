import Mathlib.Algebra.Group.Nat.Defs
import Multicast.Wire.Envelope

/-! A FIFO packet is read back from its envelope, whatever follows it. -/
namespace Multicast

namespace Varint

variable {bits n : Nat}

theorem toNat_ofNat {n : Nat} (h : n < 256) : (UInt8.ofNat n).toNat = n := by
  rw [UInt8.toNat_ofNat']
  omega

theorem read_cons {b : UInt8} {rest : Bytes} : read bits (b :: rest) =
    if bits ≤ 7 then
      if b.toNat < 2 ^ bits then .ok (b.toNat, rest) else .error .badVarint
    else if b.toNat < 128 then .ok (b.toNat, rest)
    else
      match read (bits - 7) rest with
      | .ok (n, rest) => .ok (b.toNat % 128 + 128 * n, rest)
      | .error e => .error e := rfl

/-- A number that has at most so many bits is read back. -/
theorem read_encode (h : n < 2 ^ bits) (rest : Bytes) :
    read bits (encode n ++ rest) = .ok (n, rest) := by
  induction n using Nat.strongRecOn generalizing bits with
  | ind n ih =>
    rw [encode]
    split
    · rename_i hlast
      have hbyte : (UInt8.ofNat n).toNat = n := toNat_ofNat (by omega)
      rw [List.cons_append, List.nil_append, read_cons, hbyte]
      rw [if_pos h, if_pos hlast, ite_self]
    · rename_i hmore
      have hbyte : (UInt8.ofNat (n % 128 + 128)).toNat = n % 128 + 128 := toNat_ofNat (by omega)
      have hbits : ¬ bits ≤ 7 := by
        intro hfew
        have hpow : 2 ^ bits ≤ 2 ^ 7 := Nat.pow_le_pow_right (by omega) hfew
        omega
      have hrest : n / 128 < 2 ^ (bits - 7) := by
        have hpow : 2 ^ bits = 2 ^ (bits - 7) * 2 ^ 7 := by
          rw [← Nat.pow_add]
          congr 1
          omega
        rw [Nat.div_lt_iff_lt_mul (by omega)]
        omega
      rw [List.cons_append, read_cons, hbyte, if_neg hbits, if_neg (by omega),
        ih (n / 128) (by omega) hrest]
      have hsum : (n % 128 + 128) % 128 + 128 * (n / 128) = n := by omega
      simp only [hsum]

end Varint

namespace Wire

theorem readPayload_payload {bs : Bytes} (h : bs.length < 2 ^ 64) (rest : Bytes) :
    readPayload (payload bs ++ rest) = .ok (bs, rest) := by
  have hlong : ¬ (bs ++ rest).length < bs.length := by
    rw [List.length_append]
    omega
  simp only [readPayload, payload, List.append_assoc, Varint.read_encode h, bind, Except.bind,
    if_neg hlong, List.take_left, List.drop_left]
  rfl

theorem readFifoPacket_fifoPacket {packet : FifoPacket} (hsequence : packet.sequence < 2 ^ 64)
    (hpayload : packet.payload.length < 2 ^ 64) (rest : Bytes) :
    readFifoPacket (fifoPacket packet ++ rest) = .ok (packet, rest) := by
  simp only [readFifoPacket, fifoPacket, List.append_assoc, Varint.read_encode hsequence,
    readPayload_payload hpayload, bind, Except.bind]
  rfl

end Wire

theorem Envelope.decode_fifo {packet : FifoPacket} (hsequence : packet.sequence < 2 ^ 64)
    (hpayload : packet.payload.length < 2 ^ 64) :
    Envelope.decode (Envelope.fifo packet).encode = .ok (.fifo packet) := by
  have hpacket := Wire.readFifoPacket_fifoPacket hsequence hpayload []
  rw [List.append_nil] at hpacket
  have hvariant : Varint.read 32 (Varint.encode 0 ++ Wire.fifoPacket packet) =
      .ok (0, Wire.fifoPacket packet) := Varint.read_encode (by decide) _
  simp only [decode, read, encode, hvariant, hpacket, bind, Except.bind]
  rfl

/-- An envelope is longer than what it carries. -/
theorem Envelope.length_fifo (packet : FifoPacket) :
    packet.payload.length ≤ (Envelope.fifo packet).encode.length := by
  simp only [encode, Wire.fifoPacket, Wire.payload, List.length_append]
  omega

end Multicast
