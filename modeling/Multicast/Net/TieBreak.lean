import Multicast.Net.Address

/-! Which of two connections to one peer survives. Both ends of a socket must decide alike without
talking to each other, so the decision rests on its two addresses whichever way round they are. -/
namespace Multicast

/-- The addresses of a socket as seen from the local side. -/
structure ConnectionKey where
  here : SocketAddress
  there : SocketAddress
  deriving DecidableEq, Repr

inductive TieBreak where
  | keepFirst
  | keepSecond
  /-- No decision: a self-connection is involved, or both are one socket. -/
  | tied
  deriving DecidableEq, Repr

namespace ConnectionKey

/-- The lower address, then the higher. -/
def canonical (k : ConnectionKey) : SocketAddress × SocketAddress :=
  if k.here.order k.there = .gt then (k.there, k.here) else (k.here, k.there)

/-- The key as seen from the other end. -/
def reversed (k : ConnectionKey) : ConnectionKey := ⟨k.there, k.here⟩

def isSelfLoop (k : ConnectionKey) : Bool := k.here = k.there

def order (k l : ConnectionKey) : Ordering :=
  (k.canonical.1.order l.canonical.1).then (k.canonical.2.order l.canonical.2)

end ConnectionKey

/-- The connection with the lower canonical key survives. A connection to oneself has no key. -/
def tieBreak : Option ConnectionKey → Option ConnectionKey → TieBreak
  | some k, some l =>
    if k.isSelfLoop || l.isSelfLoop then .tied
    else
      match k.order l with
      | .lt => .keepFirst
      | .gt => .keepSecond
      | .eq => .tied
  | _, _ => .tied

end Multicast
