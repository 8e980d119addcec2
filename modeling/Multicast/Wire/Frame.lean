import Multicast.Bytes

/-! Frames: a payload behind its length. -/
namespace Multicast.Frame

def defaultMaxSize : Nat := 16777216

def encode (payload : Bytes) : Bytes := Bytes.ofWord payload.length ++ payload

/-- What the front of a buffer holds. -/
inductive Front where
  | frame (payload rest : Bytes)
  | incomplete
  | tooLarge (len : Nat)
  deriving DecidableEq, Repr

/-- A length above `max` is refused as soon as it can be read. -/
def front (max : Nat) (buffer : Bytes) : Front :=
  match buffer.word? with
  | none => .incomplete
  | some (len, rest) =>
    if max < len then .tooLarge len
    else if rest.length < len then .incomplete
    else .frame (rest.take len) (rest.drop len)

theorem front_shortens {max : Nat} {buffer payload rest : Bytes}
    (h : front max buffer = .frame payload rest) : rest.length < buffer.length := by
  unfold front at h
  cases hw : buffer.word? with
  | none => simp [hw] at h
  | some p =>
    obtain ⟨len, r⟩ := p
    have he := congrArg List.length (Bytes.ofWord_of_word? hw)
    simp only [List.length_append, Bytes.length_ofWord] at he
    simp only [hw] at h
    split at h
    · cases h
    · split at h
      · cases h
      · simp only [Front.frame.injEq] at h
        obtain ⟨_, rfl⟩ := h
        simp only [List.length_drop]
        omega

/-- The frames at the front of a buffer, what is left, and the length that stopped the reading. -/
structure Decoded where
  frames : List Bytes
  rest : Bytes
  tooLarge : Option Nat := none
  deriving DecidableEq, Repr

def decodeAll (max : Nat) (buffer : Bytes) : Decoded :=
  match _h : front max buffer with
  | .frame payload rest =>
    let d := decodeAll max rest
    { d with frames := payload :: d.frames }
  | .incomplete => ⟨[], buffer, none⟩
  | .tooLarge len => ⟨[], buffer, some len⟩
termination_by buffer.length
decreasing_by exact front_shortens _h

end Multicast.Frame
