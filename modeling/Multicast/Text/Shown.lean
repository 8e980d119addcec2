import Multicast.Bytes
import Multicast.Text.Characters

/-! How texts and bytes are shown: in messages in double quotes, and as text whether or not the
bytes encode one. -/
namespace Multicast

/-! ### Texts in double quotes -/

namespace Quoted

/-- Quotes, backslashes and characters that do not show are escaped, all others stand for
themselves. -/
def escape (c : Char) : List Char :=
  match c with
  | '"' => ['\\', '"']
  | '\\' => ['\\', '\\']
  | '\n' => ['\\', 'n']
  | '\r' => ['\\', 'r']
  | '\t' => ['\\', 't']
  | '\x00' => ['\\', '0']
  | c =>
    if Hidden.isHidden c then ['\\', 'u', '\x7b'] ++ Nat.toDigits 16 c.toNat ++ ['\x7d'] else [c]

def quote (s : String) : String := String.ofList ('"' :: s.toList.flatMap escape ++ ['"'])

end Quoted

/-! ### Bytes as text -/

namespace Lossy

/-- The character at the front of a byte string, and how many bytes encode it. -/
def front? (bs : Bytes) : Option (Char × Nat) :=
  [1, 2, 3, 4].findSome? fun n =>
    match (Bytes.text? (bs.take n)).map String.toList with
    | some [c] => some (c, n)
    | _ => none

/-- Whether more bytes could complete these to one character. Those behind the second are free, and
for the second the lowest or the highest choice is always possible. -/
def isBeginning (bs : Bytes) : Bool :=
  [1, 2, 3].any fun n => [0x80, 0xBF].any fun b =>
    match front? (bs ++ List.replicate n b) with
    | some (_, len) => len = bs.length + n
    | none => false

/-- How many bytes at the front are the beginning of a character that is not there. At least one
byte is passed over. -/
def brokenLength (bs : Bytes) : Nat :=
  max 1 ([1, 2, 3].filter fun n => n ≤ bs.length && isBeginning (bs.take n)).length

/-- The characters that are encoded, and a replacement character for each broken one. -/
def chars : Bytes → List Char
  | [] => []
  | b :: bs =>
    match front? (b :: bs) with
    | some (c, len) => c :: chars (bs.drop (len - 1))
    | none => '\ufffd' :: chars (bs.drop (brokenLength (b :: bs) - 1))
termination_by bs => bs.length
decreasing_by all_goals simp only [List.length_drop, List.length_cons]; omega

def text (bs : Bytes) : String := String.ofList (chars bs)

end Lossy

end Multicast
