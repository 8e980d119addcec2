/-! What stands between the parts of a TOML text: blanks, line ends and comments. -/
namespace Multicast.Toml

/-- Takes something off the front of a text. -/
abbrev Scanner (α : Type) := List Char → Option (α × List Char)

def isBlank (c : Char) : Bool := c = ' ' || c = '\t'

/-- Characters that no string and no comment may hold. -/
def isForbidden (c : Char) : Bool := (c.toNat < 32 && c ≠ '\t') || c.toNat = 127

def skipBlanks (cs : List Char) : List Char := cs.dropWhile isBlank

/-- Drops blanks, line ends and comments. -/
def skipVoid? (inComment : Bool) : List Char → Option (List Char)
  | [] => some []
  | '\n' :: cs | '\r' :: '\n' :: cs => skipVoid? false cs
  | c :: cs =>
    if inComment then if isForbidden c then none else skipVoid? true cs
    else if isBlank c then skipVoid? false cs
    else if c = '#' then skipVoid? true cs
    else some (c :: cs)

/-- Reads to the end of a line that holds nothing more than a comment. -/
def lineEnd? (cs : List Char) : Option (List Char) :=
  let cs := skipBlanks cs
  let cs := if cs.head? = some '#' then cs.dropWhile (!isForbidden ·) else cs
  match cs with
  | [] => some []
  | '\n' :: cs | '\r' :: '\n' :: cs => some cs
  | _ => none

/-- The parts of a sequence with commas between them, up to a closing bracket. A comma may follow
the last one, and around all of them there may be blanks, line ends and comments. -/
def separated {α : Type} (closing : Char) (part : Scanner α) : Nat → Scanner (List α)
  | 0, _ => none
  | fuel + 1, cs => do
    let cs ← skipVoid? false cs
    if cs.head? = some closing then return ([], cs.drop 1)
    let (a, cs) ← part cs
    match ← skipVoid? false cs with
    | ',' :: cs =>
      let (as, cs) ← separated closing part fuel cs
      return (a :: as, cs)
    | c :: cs => if c = closing then some ([a], cs) else none
    | [] => none

end Multicast.Toml
