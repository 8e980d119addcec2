import Multicast.Text.Decimal
import Multicast.Toml.Scanner

/-! Strings in TOML texts. -/
namespace Multicast.Toml

/-- The character with the given number. -/
def scalar? (digits : List Char) : Option Char := do
  let n ← Numeral.read? 16 digits
  if n < 0xD800 ∨ (0xDFFF < n ∧ n < 0x110000) then some (Char.ofNat n) else none

/-- The character that a backslash and another character stand for. -/
def escape? : Char → Option Char
  | 'b' => some '\x08'
  | 't' => some '\t'
  | 'n' => some '\n'
  | 'f' => some '\x0c'
  | 'r' => some '\r'
  | 'e' => some '\x1b'
  | '"' => some '"'
  | '\\' => some '\\'
  | _ => none

/-- The rest of a string in double quotes. -/
def basicString : Scanner (List Char)
  | '"' :: cs => some ([], cs)
  | '\\' :: 'x' :: a :: b :: cs => do
    let x ← scalar? [a, b]
    let (s, cs) ← basicString cs
    return (x :: s, cs)
  | '\\' :: 'u' :: a :: b :: c :: d :: cs => do
    let x ← scalar? [a, b, c, d]
    let (s, cs) ← basicString cs
    return (x :: s, cs)
  | '\\' :: 'U' :: a :: b :: c :: d :: e :: f :: g :: h :: cs => do
    let x ← scalar? [a, b, c, d, e, f, g, h]
    let (s, cs) ← basicString cs
    return (x :: s, cs)
  | '\\' :: c :: cs => do
    let x ← escape? c
    let (s, cs) ← basicString cs
    return (x :: s, cs)
  | c :: cs =>
    if isForbidden c then none
    else do
      let (s, cs) ← basicString cs
      return (c :: s, cs)
  | [] => none

/-- Whether only blanks are left on a line. -/
def endsLine (cs : List Char) : Bool :=
  match skipBlanks cs with
  | '\n' :: _ | '\r' :: '\n' :: _ => true
  | _ => false

/-- The rest of a string in three double quotes. A backslash at the end of a line joins it with the
next text, which `trimming` looks for. -/
def basicLines (trimming : Bool) : Scanner (List Char)
  | '"' :: '"' :: '"' :: '"' :: '"' :: cs => some (['"', '"'], cs)
  | '"' :: '"' :: '"' :: '"' :: cs => some (['"'], cs)
  | '"' :: '"' :: '"' :: cs => some ([], cs)
  | '\\' :: 'x' :: a :: b :: cs => do
    let x ← scalar? [a, b]
    let (s, cs) ← basicLines false cs
    return (x :: s, cs)
  | '\\' :: 'u' :: a :: b :: c :: d :: cs => do
    let x ← scalar? [a, b, c, d]
    let (s, cs) ← basicLines false cs
    return (x :: s, cs)
  | '\\' :: 'U' :: a :: b :: c :: d :: e :: f :: g :: h :: cs => do
    let x ← scalar? [a, b, c, d, e, f, g, h]
    let (s, cs) ← basicLines false cs
    return (x :: s, cs)
  | '\\' :: c :: cs =>
    if endsLine (c :: cs) then basicLines true cs
    else do
      let x ← escape? c
      let (s, cs) ← basicLines false cs
      return (x :: s, cs)
  | '\r' :: '\n' :: cs =>
    if trimming then basicLines true cs
    else do
      let (s, cs) ← basicLines false cs
      return ('\r' :: '\n' :: s, cs)
  | c :: cs =>
    if trimming && (isBlank c || c = '\n') then basicLines true cs
    else if isForbidden c && c ≠ '\n' then none
    else do
      let (s, cs) ← basicLines false cs
      return (c :: s, cs)
  | [] => none

/-- The rest of a string in single quotes. -/
def literalString : Scanner (List Char)
  | '\'' :: cs => some ([], cs)
  | c :: cs =>
    if isForbidden c then none
    else do
      let (s, cs) ← literalString cs
      return (c :: s, cs)
  | [] => none

/-- The rest of a string in three single quotes. -/
def literalLines : Scanner (List Char)
  | '\'' :: '\'' :: '\'' :: '\'' :: '\'' :: cs => some (['\'', '\''], cs)
  | '\'' :: '\'' :: '\'' :: '\'' :: cs => some (['\''], cs)
  | '\'' :: '\'' :: '\'' :: cs => some ([], cs)
  | '\r' :: '\n' :: cs => do
    let (s, cs) ← literalLines cs
    return ('\r' :: '\n' :: s, cs)
  | c :: cs =>
    if isForbidden c && c ≠ '\n' then none
    else do
      let (s, cs) ← literalLines cs
      return (c :: s, cs)
  | [] => none

/-- A line end right behind three opening quotes does not belong to the string. -/
def dropLineEnd : List Char → List Char
  | '\n' :: cs | '\r' :: '\n' :: cs => cs
  | cs => cs

def string : Scanner (List Char)
  | '"' :: '"' :: '"' :: cs => basicLines false (dropLineEnd cs)
  | '"' :: cs => basicString cs
  | '\'' :: '\'' :: '\'' :: cs => literalLines (dropLineEnd cs)
  | '\'' :: cs => literalString cs
  | _ => none

end Multicast.Toml
