import Multicast.Toml.Statement

/-! The table that a TOML text describes. -/
namespace Multicast.Toml

/-- The tree so far, and the path of the table that was opened last. -/
structure Progress where
  entries : Entries := []
  current : List String := []

def Progress.apply (p : Progress) : Statement → Option Progress
  | .assign path v => do
    let entries ← within (assign v path) p.current p.entries
    return { p with entries }
  | .header path => do
    let entries ← within (openTable (← path.getLast?)) path.dropLast p.entries
    return { entries, current := path }
  | .item path => do
    let entries ← within (openItem (← path.getLast?)) path.dropLast p.entries
    return { entries, current := path }

/-- Drops a mark of the byte order at the beginning. -/
def dropMark : List Char → List Char
  | '\ufeff' :: cs => cs
  | cs => cs

/-- The table that a text describes. -/
def read? (s : String) : Option (Table String Value) := do
  let cs := dropMark s.toList
  let statements ← statements? (cs.length + 1) cs
  let p ← statements.foldlM Progress.apply {}
  return entriesToValues p.entries

end Multicast.Toml
