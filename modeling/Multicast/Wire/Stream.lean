import Multicast.Wire.Frame
import Multicast.Wire.Handshake

/-! The bytes of a peer as they come in: one handshake, then frames. -/
namespace Multicast

structure PeerStream where
  /-- Bytes that are not decoded yet. -/
  buffer : Bytes := []
  /-- The handshake is decoded. -/
  identified : Bool := false
  deriving DecidableEq, Repr

inductive StreamError where
  | handshake (e : IdentityError)
  | tooLarge (len max : Nat)
  deriving DecidableEq, Repr

/-- What a chunk of bytes has completed. -/
structure Decoding where
  identity : Option Proc := none
  frames : List Bytes := []
  failure : Option StreamError := none
  deriving DecidableEq, Repr

namespace PeerStream

/-- Decodes the frames in the buffer. -/
def readFrames (s : PeerStream) (max : Nat) : Decoding × PeerStream :=
  let d := Frame.decodeAll max s.buffer
  ({ frames := d.frames, failure := d.tooLarge.map fun len => .tooLarge len max },
    { s with buffer := d.rest })

/-- Takes up a chunk of bytes. -/
def feed (s : PeerStream) (max : Nat) (chunk : Bytes) : Decoding × PeerStream :=
  let s := { s with buffer := s.buffer ++ chunk }
  if s.identified then s.readFrames max
  else
    match Handshake.front s.buffer with
    | .incomplete => ({}, s)
    | .invalid e rest => ({ failure := some (.handshake e) }, { s with buffer := rest })
    | .identity p rest =>
      let (d, s) := { s with buffer := rest, identified := true }.readFrames max
      ({ d with identity := some p }, s)

/-- Takes up chunks until one cannot be decoded. Tells what each has completed, and the state it
leaves. -/
def feedAll (s : PeerStream) (max : Nat) : List Bytes → List (Decoding × PeerStream)
  | [] => []
  | chunk :: chunks =>
    let (d, s) := s.feed max chunk
    (d, s) :: if d.failure.isSome then [] else s.feedAll max chunks

end PeerStream

end Multicast
