import Multicast.Proofs.Net.Inbound
import Multicast.Wire.Stream

/-! The bytes of a peer, decoded chunk by chunk. The handshake and the frames are those of the whole
stream, and a connection that was accepted reports just these. -/
namespace Multicast

namespace Decoding
variable {d : Decoding}

/-- What one chunk has completed, and then another. -/
def append (d e : Decoding) : Decoding where
  identity := d.identity.or e.identity
  frames := d.frames ++ e.frames
  failure := d.failure.or e.failure

instance : Append Decoding := ⟨append⟩

theorem append_eq (d e : Decoding) :
    d ++ e = ⟨d.identity.or e.identity, d.frames ++ e.frames, d.failure.or e.failure⟩ := rfl

@[simp] theorem append_empty : d ++ ({} : Decoding) = d := by
  simp [append_eq]

@[simp] theorem empty_append : ({} : Decoding) ++ d = d := by
  simp [append_eq]

theorem append_assoc (d e f : Decoding) : d ++ e ++ f = d ++ (e ++ f) := by
  simp [append_eq, Option.or_assoc]

/-- What some chunks have completed, one after another. -/
def all : List Decoding → Decoding
  | [] => {}
  | d :: ds => d ++ all ds

end Decoding

namespace PeerStream
variable {s : PeerStream} {max : Nat} {chunk more rest : Bytes} {chunks : List Bytes} {p : Proc}

/-- What some chunks have completed, up to the one that cannot be decoded. -/
def total (s : PeerStream) (max : Nat) (chunks : List Bytes) : Decoding :=
  .all ((s.feedAll max chunks).map (·.1))

theorem feed_identified (h : s.identified = true) :
    s.feed max chunk = { s with buffer := s.buffer ++ chunk }.readFrames max := by
  simp only [feed, h, if_true]

theorem feed_identity (hs : s.identified = false)
    (hfront : Handshake.front (s.buffer ++ chunk) = .identity p rest) :
    let r := ({ buffer := rest, identified := true } : PeerStream).readFrames max
    s.feed max chunk = ({ identity := some p } ++ r.1, r.2) := by
  simp only [feed, hs, hfront, Bool.false_eq_true, if_false]
  rfl

/-- Frames that come in later add to those that were read. -/
theorem readFrames_append (h : (s.readFrames max).1.failure = none) (more : Bytes) :
    let r := s.readFrames max
    let r' := { r.2 with buffer := r.2.buffer ++ more }.readFrames max
    { s with buffer := s.buffer ++ more }.readFrames max = (r.1 ++ r'.1, r'.2) := by
  have hlarge : (Frame.decodeAll max s.buffer).tooLarge = none := by
    simpa only [readFrames, Option.map_eq_none_iff] using h
  simp only [readFrames, Frame.decodeAll_append hlarge, hlarge, Decoding.append_eq,
    Option.map_none, Option.none_or]

/-- Behind a frame that is too large no more are read. -/
theorem readFrames_append_failed (h : (s.readFrames max).1.failure ≠ none) (more : Bytes) :
    ({ s with buffer := s.buffer ++ more }.readFrames max).1 = (s.readFrames max).1 := by
  have hlarge : (Frame.decodeAll max s.buffer).tooLarge ≠ none := fun hnone =>
    h (by simp only [readFrames, hnone, Option.map_none])
  obtain ⟨len, hlen⟩ := Option.ne_none_iff_exists'.mp hlarge
  obtain ⟨hframes, hmore⟩ := Frame.decodeAll_append_tooLarge hlen more
  simp only [readFrames, hframes, hmore, hlen]

/-- A chunk that is decoded can come in two parts. -/
theorem feed_append (h : (s.feed max chunk).1.failure = none) :
    let r := s.feed max chunk
    let r' := r.2.feed max more
    s.feed max (chunk ++ more) = (r.1 ++ r'.1, r'.2) := by
  cases hs : s.identified with
  | true =>
    have hstays : (s.feed max chunk).2.identified = true := by
      rw [feed_identified hs]
      exact hs
    rw [feed_identified hs] at h
    dsimp only
    rw [feed_identified hstays, feed_identified hs, feed_identified hs, ← List.append_assoc]
    exact readFrames_append h more
  | false =>
    cases hfront : Handshake.front (s.buffer ++ chunk) with
    | incomplete =>
      have hwaits : s.feed max chunk = ({}, { s with buffer := s.buffer ++ chunk }) := by
        simp [feed, hs, hfront]
      simp only [hwaits, Decoding.empty_append]
      simp only [feed, List.append_assoc]
    | invalid e rest => simp [feed, hs, hfront] at h
    | identity p rest =>
      have hmore : Handshake.front (s.buffer ++ (chunk ++ more)) = .identity p (rest ++ more) := by
        rw [← List.append_assoc]
        exact Handshake.front_append_identity hfront more
      rw [feed_identity hs hfront] at h
      have hframes := readFrames_append (by simpa [Decoding.append_eq] using h) more
      dsimp only at hframes ⊢
      rw [feed_identity hs hfront, feed_identity hs hmore, hframes, feed_identified rfl,
        Decoding.append_assoc]

/-- A chunk that cannot be decoded stays so, whatever follows. -/
theorem feed_append_failed (h : (s.feed max chunk).1.failure ≠ none) :
    (s.feed max (chunk ++ more)).1 = (s.feed max chunk).1 := by
  cases hs : s.identified with
  | true =>
    rw [feed_identified hs] at h
    rw [feed_identified hs, feed_identified hs, ← List.append_assoc]
    exact readFrames_append_failed h more
  | false =>
    cases hfront : Handshake.front (s.buffer ++ chunk) with
    | incomplete => simp [feed, hs, hfront] at h
    | invalid e rest =>
      have hmore := Handshake.front_append_invalid hfront more
      simp only [feed, hs, hfront, ← List.append_assoc, hmore, Bool.false_eq_true, if_false]
    | identity p rest =>
      have hmore : Handshake.front (s.buffer ++ (chunk ++ more)) = .identity p (rest ++ more) := by
        rw [← List.append_assoc]
        exact Handshake.front_append_identity hfront more
      rw [feed_identity hs hfront] at h
      have hframes := readFrames_append_failed
        (by simpa [Decoding.append_eq] using h) more
      rw [feed_identity hs hfront, feed_identity hs hmore, hframes]

theorem total_cons : s.total max (chunk :: chunks) = (s.feed max chunk).1 ++
    if (s.feed max chunk).1.failure.isSome then {} else (s.feed max chunk).2.total max chunks := by
  simp only [total, feedAll, List.map_cons, Decoding.all]
  split <;> rfl

/-- Chunks that come in one after another complete what all of them complete at once. -/
theorem total_eq_feed : s.total max (chunk :: chunks) =
    (s.feed max (chunk ++ chunks.flatten)).1 := by
  induction chunks generalizing s chunk with
  | nil =>
    rw [total_cons, List.flatten_nil, List.append_nil]
    split <;> exact Decoding.append_empty
  | cons next chunks ih =>
    rw [total_cons, List.flatten_cons]
    cases hfailure : (s.feed max chunk).1.failure with
    | some e =>
      rw [feed_append_failed (by rw [hfailure]; nofun)]
      exact Decoding.append_empty
    | none =>
      rw [feed_append hfailure, ← ih]
      rfl

/-- A peer's bytes complete the same in any chunks. -/
theorem total_flatten (max : Nat) (chunks : List Bytes) :
    ({} : PeerStream).total max chunks = (({} : PeerStream).feed max chunks.flatten).1 := by
  cases chunks with
  | nil => rfl
  | cons chunk chunks => exact total_eq_feed

end PeerStream

/-- What a failure to decode does to a connection. -/
def StreamError.asNet : StreamError → NetError
  | .handshake e => .handshake e
  | .tooLarge len max => .frameTooLarge len max

namespace Connection
variable {c : Connection} {max : Nat} {chunks : List Bytes}

/-- A connection that was accepted reports what the chunks of its peer complete, and breaks if one
of them cannot be decoded. -/
theorem reading_chunks (h : c.phase = .accepting) :
    let d := ({} : PeerStream).total max chunks
    c.reading max chunks.flatten false =
      ⟨(d.identity.toList.flatMap fun p => (c.key.map (.accepted c.id p)).toList) ++
          d.frames.map (.received c.id),
        match d.failure with
        | none => .ok .alive
        | some e => .error e.asNet⟩ := by
  have hphase : c.phase ≠ .connected := by simp [h]
  rw [PeerStream.total_flatten, reading, if_neg hphase]
  cases hfront : Handshake.front chunks.flatten with
  | incomplete => simp [PeerStream.feed, hfront]
  | invalid e rest => simp [PeerStream.feed, hfront, StreamError.asNet]
  | identity p rest =>
    have hgreeting : c.greeting p = .ok (c.key.map (.accepted c.id p)).toList := by
      simp only [greeting, h]
    simp only [hgreeting, PeerStream.feed_identity (s := {}) rfl hfront]
    cases hlarge : (Frame.decodeAll max rest).tooLarge <;>
      simp [PeerStream.readFrames, Decoding.append_eq, Reading.frames, Reading.after, hlarge,
        StreamError.asNet]

end Connection

end Multicast
