import Multicast.Bytes
import Multicast.Proc

/-! The identity both ends of a new connection send before any frame. -/
namespace Multicast.Handshake

/-- Longest address a handshake carries, in bytes. -/
def maxAddress : Nat := 255

/-- Bytes of the port and the incarnation, which follow the address. -/
def trailerSize : Nat := 8

/-- The address behind its length, then the port and the incarnation. -/
def encode (p : Proc) : Bytes :=
  let address := Bytes.ofText p.address
  Bytes.ofWord address.length ++ address ++
    Bytes.ofWord p.port.toNat ++ Bytes.ofWord p.incarnation.toNat

/-- Encodes an identity that a peer can decode. -/
def encode? (p : Proc) : Except IdentityError Bytes :=
  if maxAddress < (Bytes.ofText p.address).length then .error (.addressTooLong maxAddress)
  else .ok (encode p)

/-- What the front of a buffer holds. The rest is what stays in the buffer. -/
inductive Front where
  | identity (p : Proc) (rest : Bytes)
  | incomplete
  | invalid (e : IdentityError) (rest : Bytes)
  deriving DecidableEq, Repr

/-- The part behind a complete address. -/
def ofAddress (address trailer : Bytes) : Front :=
  match Bytes.text? address with
  | none => .invalid .invalidHostname trailer
  | some address =>
    match trailer.word? with
    | none => .incomplete
    | some (port, trailer) =>
      match trailer.word? with
      | none => .incomplete
      | some (incarnation, rest) =>
        if port < 65536 then
          .identity ⟨address, UInt16.ofNat port, UInt32.ofNat incarnation⟩ rest
        else .invalid (.portOutOfRange port) rest

/-- Nothing is taken off before the whole handshake is there, nor if its address is too long. -/
def front (buffer : Bytes) : Front :=
  match buffer.word? with
  | none => .incomplete
  | some (len, rest) =>
    if maxAddress < len then .invalid (.hostnameTooLong len maxAddress) buffer
    else if rest.length < len + trailerSize then .incomplete
    else ofAddress (rest.take len) (rest.drop len)

end Multicast.Handshake
