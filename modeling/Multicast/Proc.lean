import Multicast.Ascending
import Multicast.Text.Decimal
import Multicast.Text.Shown
import Multicast.Text.Split

/-! Identities of processes, their text form and their order. -/
namespace Multicast

/-- One epoch of a process at an endpoint. A process that comes back has a new incarnation and
is another process. -/
structure Proc where
  address : String
  port : UInt16
  incarnation : UInt32
  deriving DecidableEq, Repr, Inhabited

inductive IdentityError where
  | invalidProcess (s : String)
  | duplicateMember (p : Proc)
  | invalidHostname
  | hostnameTooLong (len max : Nat)
  | portOutOfRange (port : Nat)
  /-- An identity whose address no handshake can carry. -/
  | addressTooLong (max : Nat)
  deriving DecidableEq, Repr

namespace Proc

def text (p : Proc) : String :=
  p.address ++ ":" ++ toString p.port.toNat ++ ":" ++ toString p.incarnation.toNat

/-- The form in which a message shows an expected identity. -/
def tagged (p : Proc) : String := "P(" ++ p.text ++ ")"

/-- Addresses compare character by character, then ports, then incarnations. -/
def order (p q : Proc) : Ordering :=
  (lexicographic (p.address.toList.map Char.toNat) (q.address.toList.map Char.toNat)).then
    (lexicographic [p.port.toNat, p.incarnation.toNat] [q.port.toNat, q.incarnation.toNat])

/-- Orders from the lower identity to the higher, both included. -/
def isAtMost (p q : Proc) : Bool := p.order q ≠ .gt

def sameEndpoint (p q : Proc) : Bool := p.address = q.address && p.port = q.port

def withPort (p : Proc) (port : UInt16) : Proc := { p with port }

/-- The last two colons separate the parts, so that an address may hold colons of its own. -/
def ofChars? (cs : List Char) : Option Proc := do
  let (front, incarnation) ← Split.last? ':' cs
  let (address, port) ← Split.last? ':' front
  if address = [] then none
  let port ← Decimal.read? 65535 port
  let incarnation ← Decimal.read? 4294967295 incarnation
  return ⟨String.ofList address, UInt16.ofNat port, UInt32.ofNat incarnation⟩

def parse (s : String) : Except IdentityError Proc :=
  match ofChars? s.toList with
  | some p => .ok p
  | none => .error (.invalidProcess s)

/-- The first member that an earlier place already holds. -/
def firstRepeated? : List Proc → Option Proc := go []
where
  go (seen : List Proc) : List Proc → Option Proc
    | [] => none
    | p :: ps => if p ∈ seen then some p else go (p :: seen) ps

def ensureUnique (ps : List Proc) : Except IdentityError Unit :=
  match firstRepeated? ps with
  | some p => .error (.duplicateMember p)
  | none => .ok ()

/-- Each process once, where it first occurs. -/
def firsts : List Proc → List Proc
  | [] => []
  | p :: ps => p :: (firsts ps).filter (· ≠ p)

def sorted (ps : List Proc) : List Proc := ps.mergeSort isAtMost

/-- The processes of a list, each once and in ascending order. -/
def ascending (ps : List Proc) : List Proc := ps.foldr (insertAscending order) []

end Proc

namespace IdentityError

def message : IdentityError → String
  | .invalidProcess s =>
    "invalid process id: " ++ Quoted.quote s ++ " (expected host:port:incarnation)"
  | .duplicateMember p => "duplicate member in view: " ++ p.text
  | .invalidHostname => "handshake hostname is not valid UTF-8"
  | .hostnameTooLong len max =>
    "handshake hostname too long: " ++ toString len ++ " bytes (max " ++ toString max ++ ")"
  | .portOutOfRange port => "handshake port out of range: " ++ toString port
  | .addressTooLong max => "process address exceeds " ++ toString max ++ " bytes"

end IdentityError

end Multicast
