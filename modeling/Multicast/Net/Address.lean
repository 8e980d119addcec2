import Multicast.Ascending
import Multicast.Text.Decimal
import Multicast.Text.Split

/-! Addresses of hosts, as texts name them without a directory, and addresses of sockets with their
order. -/
namespace Multicast

/-! ### Hosts -/

/-- The address of a host: four octets, or eight segments. -/
inductive HostAddress where
  | v4 (octets : List UInt8)
  | v6 (segments : List UInt16)
  deriving DecidableEq, Repr

namespace HostAddress

/-- A decimal number below 256 without leading zeros. -/
def octet? (cs : List Char) : Option UInt8 :=
  if cs.length ≤ 3 && (cs.length = 1 || cs.head? ≠ some '0') then
    ((Decimal.digits? cs).filter (· < 256)).map UInt8.ofNat
  else none

/-- Four octets with points between them. -/
def octets? (cs : List Char) : Option (List UInt8) :=
  let parts := Split.pieces '.' cs
  if parts.length = 4 then parts.mapM octet? else none

/-- A hexadecimal number behind `0x`, an octal one behind a zero, or a decimal one. -/
def number? : List Char → Option Nat
  | '0' :: 'x' :: cs | '0' :: 'X' :: cs => Numeral.read? 16 cs
  | '0' :: cs => Numeral.read? 8 ('0' :: cs)
  | cs => Numeral.read? 10 cs

/-- A number in bytes, the highest first. -/
def bytes (n : Nat) : Nat → List UInt8
  | 0 => []
  | width + 1 => bytes (n / 256) width ++ [UInt8.ofNat n]

/-- One to four numbers with points between them, all but the last below 256. The last one takes
all bytes that are left. -/
def numbers? (cs : List Char) : Option (List UInt8) := do
  let numbers ← (Split.pieces '.' cs).mapM number?
  let front := numbers.dropLast
  let last ← numbers.getLast?
  let width := 4 - front.length
  if 4 ≤ front.length || front.any (256 ≤ ·) || Nat.pow 256 width ≤ last then none
  return front.map UInt8.ofNat ++ bytes last width

/-- One to four hexadecimal digits. -/
def segment? (cs : List Char) : Option UInt16 :=
  if cs.length ≤ 4 then (Numeral.read? 16 cs).map UInt16.ofNat else none

/-- Two octets as one number. -/
def join (high low : UInt8) : UInt16 := UInt16.ofNat (256 * high.toNat + low.toNat)

/-- Segments with colons between them. Four octets may stand for the last two. -/
def segments? : List (List Char) → Option (List UInt16)
  | [] => some []
  | [cs] =>
    match octets? cs with
    | some [a, b, c, d] => some [join a b, join c d]
    | _ => (segment? cs).map ([·])
  | cs :: rest => do return (← segment? cs) :: (← segments? rest)

/-- The parts before and after two colons. -/
def splitGap? : List Char → Option (List Char × List Char)
  | ':' :: ':' :: cs => some ([], cs)
  | c :: cs => (splitGap? cs).map fun (front, back) => (c :: front, back)
  | [] => none

/-- Eight segments, or fewer around one gap that stands for zeros. -/
def v6? (cs : List Char) : Option (List UInt16) :=
  match splitGap? cs with
  | none => (segments? (Split.pieces ':' cs)).filter (·.length = 8)
  | some (front, back) => do
    let front ← if front = [] then some [] else (Split.pieces ':' front).mapM segment?
    let back ← if back = [] then some [] else segments? (Split.pieces ':' back)
    let n := front.length + back.length
    if n < 8 then some (front ++ List.replicate (8 - n) 0 ++ back) else none

/-- Whether hosts tell addresses of this kind apart by their interfaces: those of a link, and
groups on a link or on one host. -/
def needsZone : List UInt16 → Bool
  | first :: _ => first / 64 = 0x3FA || (first / 256 = 0xFF && (first % 16 = 1 || first % 16 = 2))
  | [] => false

/-- Whether a text of less than 16 bytes names the local interface, which is the only one. A label
may follow behind a colon. -/
def isInterface (cs : List Char) : Bool :=
  cs.takeWhile (· ≠ ':') = ['l', 'o'] && (String.ofList cs).utf8ByteSize < 16

/-- Whether a text names a zone. Each address may have the number of an interface, and one that
needs a zone also its name. -/
def isZone (segments : List UInt16) (cs : List Char) : Bool :=
  (needsZone segments && isInterface cs) || (Decimal.digits? cs).any (· < UInt32.size)

/-- Segments, which a zone may follow behind a percent sign. -/
def zoned? (cs : List Char) : Option (List UInt16) := do
  let (address, zone) := cs.span (· ≠ '%')
  let segments ← v6? address
  if zone = [] || isZone segments (zone.drop 1) then some segments else none

/-- The address that a text names. Of names, only that of the local host is known. -/
def read? (s : String) : Option HostAddress :=
  if s.map Char.toLower = "localhost" then some (.v4 [127, 0, 0, 1])
  else ((numbers? s.toList).map .v4).or ((zoned? s.toList).map .v6)

end HostAddress

/-! ### Sockets -/

inductive SocketAddress where
  | v4 (octets : List UInt8) (port : UInt16)
  | v6 (segments : List UInt16) (port : UInt16) (flow scope : UInt32)
  deriving DecidableEq, Repr

namespace SocketAddress

/-- The numbers that are compared, first to last. -/
def key : SocketAddress → List Nat
  | v4 octets port => 4 :: octets.map UInt8.toNat ++ [port.toNat]
  | v6 segments port flow scope =>
    6 :: segments.map UInt16.toNat ++ [port.toNat, flow.toNat, scope.toNat]

/-- Every address of the fourth version comes before every one of the sixth. -/
def order (a b : SocketAddress) : Ordering := lexicographic a.key b.key

end SocketAddress

end Multicast
