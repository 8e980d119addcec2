import Multicast.Bytes

/-! Numbers in groups of seven bits, least significant group first. -/
namespace Multicast

/-- Why bytes are no encoding. -/
inductive WireError where
  | endOfBuffer
  | badVarint
  | badText
  | unknownVariant
  deriving DecidableEq, Repr

namespace WireError

def message : WireError → String
  | .endOfBuffer => "Hit the end of buffer, expected more data"
  | .badVarint => "Found a varint that didn't terminate. Is the usize too big for this platform?"
  | .badText => "Tried to parse invalid utf-8"
  | .unknownVariant => "Serde Deserialization Error"

end WireError

/-- Takes a value off the front of a buffer. -/
abbrev Reader (α : Type) := Bytes → Except WireError (α × Bytes)

namespace Varint

/-- Every byte but the last has its high bit set. -/
def encode (n : Nat) : Bytes :=
  if n < 128 then [UInt8.ofNat n] else UInt8.ofNat (n % 128 + 128) :: encode (n / 128)

/-- Reads a number of `bits` bits. A byte that holds the last of them may hold no more, and
no byte may follow it; leading zero groups are accepted. -/
def read (bits : Nat) : Reader Nat
  | [] => .error .endOfBuffer
  | b :: rest =>
    if bits ≤ 7 then
      if b.toNat < 2 ^ bits then .ok (b.toNat, rest) else .error .badVarint
    else if b.toNat < 128 then .ok (b.toNat, rest)
    else
      match read (bits - 7) rest with
      | .ok (n, rest) => .ok (b.toNat % 128 + 128 * n, rest)
      | .error e => .error e

end Varint

end Multicast
