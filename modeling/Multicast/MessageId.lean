import Multicast.Proc

/-! Identifiers of causally ordered messages. -/
namespace Multicast

/-- A sender and the number it gave the message, counted from zero. -/
structure MessageId where
  sender : Proc
  sequence : Nat
  deriving DecidableEq, Repr

namespace MessageId

/-- Whether one identifier is next to another. Only those of one sender can be. -/
inductive Relation where
  | predecessor | successor | equal | incomparable
  deriving DecidableEq, Repr

def relation (i j : MessageId) : Relation :=
  if i.sender ≠ j.sender then .incomparable
  else if i.sequence = j.sequence then .equal
  else if i.sequence + 1 = j.sequence then .predecessor
  else if j.sequence + 1 = i.sequence then .successor
  else .incomparable

def order (i j : MessageId) : Ordering :=
  (i.sender.order j.sender).then (lexicographic [i.sequence] [j.sequence])

def text (i : MessageId) : String := i.sender.text ++ "#" ++ toString i.sequence

end MessageId

end Multicast
