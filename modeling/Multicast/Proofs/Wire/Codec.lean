import Multicast.Proofs.Fallible
import Multicast.Proofs.Wire.Spelling

/-! Envelopes are read back from their encodings, and what is read as an envelope is its encoding up
to the spelling of numbers. -/
namespace Multicast

/-! ### The layout of an encoding -/

namespace Layout

def payload (bs : Bytes) : List Piece := [.number 64 bs.length, .bytes bs]

def text (s : String) : List Piece := payload (Bytes.ofText s)

def process (p : Proc) : List Piece :=
  text p.address ++ [.number 16 p.port.toNat, .number 32 p.incarnation.toNat]

def processes (ps : List Proc) : List Piece := .number 64 ps.length :: ps.flatMap process

def messageId (i : MessageId) : List Piece := process i.sender ++ [.number 64 i.sequence]

def fifoPacket (p : FifoPacket) : List Piece := .number 64 p.sequence :: payload p.payload

def causalPacket : CausalPacket → List Piece
  | .send id destinations bs =>
    .number 32 0 :: (messageId id ++ (processes destinations ++ payload bs))
  | .ack id => .number 32 1 :: messageId id

def stateTransfer (t : StateTransfer) : List Piece :=
  .number 64 t.viewId :: (processes t.members ++ processes t.added)

def envelope : Envelope → List Piece
  | .fifo packet => .number 32 0 :: fifoPacket packet
  | .causal packet => .number 32 1 :: causalPacket packet
  | .state transfer => .number 32 2 :: stateTransfer transfer

end Layout

/-- Values are written and read in a layout. -/
structure Codec {α : Type} (write : α → Bytes) (read : Reader α) (layout : α → List Piece) :
    Prop where
  writes : ∀ a, Piece.encodeAll (layout a) = write a
  reads : ∀ a bs rest, read bs = .ok (a, rest) ↔ Piece.Front (layout a) bs rest

namespace Codec
open Piece Fallible

theorem text?_eq_some {bs : Bytes} {s : String} :
    Bytes.text? bs = some s ↔ bs = Bytes.ofText s := by
  unfold Bytes.text? String.fromUTF8? Bytes.ofText String.toUTF8
  constructor
  · intro h
    split at h
    · cases h
      rfl
    · cases h
  · rintro rfl
    have hbytes : (⟨s.toByteArray.data.toList.toArray⟩ : ByteArray) = s.toByteArray := by simp
    rw [hbytes, dif_pos s.isValidUTF8]
    rfl

theorem payload : Codec Wire.payload Wire.readPayload Layout.payload where
  writes bs := by simp [Layout.payload, Wire.payload]
  reads xs bs rest := by
    simp only [Wire.readPayload, bind_eq_ok, Layout.payload, front_number, front_bytes, front_nil]
    constructor
    · rintro ⟨⟨len, mid⟩, hlen, h⟩
      dsimp only at h
      split at h
      · cases h
      · rename_i hroom
        cases h
        refine ⟨mid, ?_, _, (List.take_append_drop len mid).symm, rfl⟩
        rwa [List.length_take, Nat.min_eq_left (by omega)]
    · rintro ⟨mid, hlen, tail, rfl, rfl⟩
      refine ⟨_, hlen, ?_⟩
      dsimp only
      rw [if_neg (by rw [List.length_append]; omega), List.take_left, List.drop_left]
      rfl

theorem text : Codec Wire.text Wire.readText Layout.text where
  writes s := payload.writes (Bytes.ofText s)
  reads s bs rest := by
    simp only [Wire.readText, bind_eq_ok, payload.reads]
    constructor
    · rintro ⟨⟨bytes, mid⟩, hbytes, h⟩
      dsimp only at h
      split at h
      · rename_i s' hs
        cases h
        rwa [text?_eq_some.mp hs] at hbytes
      · cases h
    · intro h
      refine ⟨(Bytes.ofText s, rest), h, ?_⟩
      simp only [text?_eq_some.mpr rfl]
      rfl

theorem process : Codec Wire.process Wire.readProcess Layout.process where
  writes p := by simp [Layout.process, Wire.process, text.writes]
  reads p bs rest := by
    simp only [Wire.readProcess, bind_eq_ok, text.reads, Layout.process, front_append,
      front_number, front_nil]
    constructor
    · rintro ⟨⟨address, m₁⟩, ha, ⟨port, m₂⟩, hp, ⟨incarnation, m₃⟩, hi, h⟩
      cases h
      obtain ⟨v, hv, -⟩ := Varint.read_iff.mp hp
      obtain ⟨w, hw, -⟩ := Varint.read_iff.mp hi
      have hport : (UInt16.ofNat port).toNat = port :=
        UInt16.toNat_ofNat_of_lt (Varint.lt_of_spells hv)
      have hincarnation : (UInt32.ofNat incarnation).toNat = incarnation :=
        UInt32.toNat_ofNat_of_lt (Varint.lt_of_spells hw)
      refine ⟨m₁, ha, m₂, ?_, _, ?_, rfl⟩
      · rwa [hport]
      · rwa [hincarnation]
    · rintro ⟨m₁, ha, m₂, hp, m₃, hi, rfl⟩
      refine ⟨(p.address, m₁), ha, (p.port.toNat, m₂), hp, (p.incarnation.toNat, m₃), hi, ?_⟩
      simp only [UInt16.ofNat_toNat, UInt32.ofNat_toNat]
      rfl

theorem readMany_iff {n : Nat} {ps : List Proc} {bs rest : Bytes} :
    Wire.readMany n bs = .ok (ps, rest) ↔
      ps.length = n ∧ Front (ps.flatMap Layout.process) bs rest := by
  induction n generalizing ps bs with
  | zero =>
    rw [List.length_eq_zero_iff]
    constructor
    · intro h
      cases h
      exact ⟨rfl, front_nil.mpr rfl⟩
    · rintro ⟨rfl, h⟩
      rw [front_nil.mp h]
      rfl
  | succ n ih =>
    simp only [Wire.readMany, bind_eq_ok, process.reads]
    constructor
    · rintro ⟨⟨p, m₁⟩, hp, ⟨ps, m₂⟩, hps, h⟩
      cases h
      obtain ⟨rfl, hfront⟩ := ih.mp hps
      exact ⟨rfl, front_append.mpr ⟨m₁, hp, hfront⟩⟩
    · rintro ⟨hlength, hfront⟩
      cases ps with
      | nil => cases hlength
      | cons p ps =>
        rw [List.flatMap_cons] at hfront
        obtain ⟨m₁, hp, hps⟩ := front_append.mp hfront
        exact ⟨(p, m₁), hp, (ps, rest), ih.mpr ⟨Nat.succ.inj hlength, hps⟩, rfl⟩

theorem processes : Codec Wire.processes Wire.readProcesses Layout.processes where
  writes ps := by
    have hps : encodeAll (ps.flatMap Layout.process) = ps.flatMap Wire.process := by
      rw [encodeAll, List.flatMap_assoc]
      exact congrArg (ps.flatMap ·) (funext process.writes)
    exact congrArg _ hps
  reads ps bs rest := by
    simp only [Wire.readProcesses, bind_eq_ok, readMany_iff, Layout.processes, front_number]
    constructor
    · rintro ⟨⟨count, mid⟩, hcount, rfl, hps⟩
      exact ⟨mid, hcount, hps⟩
    · rintro ⟨mid, hcount, hps⟩
      exact ⟨(ps.length, mid), hcount, rfl, hps⟩

theorem messageId : Codec Wire.messageId Wire.readMessageId Layout.messageId where
  writes i := by simp [Layout.messageId, Wire.messageId, process.writes]
  reads i bs rest := by
    simp only [Wire.readMessageId, bind_eq_ok, process.reads, Layout.messageId, front_append,
      front_number, front_nil]
    constructor
    · rintro ⟨⟨sender, m₁⟩, hs, ⟨sequence, m₂⟩, hn, h⟩
      cases h
      exact ⟨m₁, hs, _, hn, rfl⟩
    · rintro ⟨m₁, hs, m₂, hn, rfl⟩
      exact ⟨(i.sender, m₁), hs, (i.sequence, m₂), hn, rfl⟩

theorem fifoPacket : Codec Wire.fifoPacket Wire.readFifoPacket Layout.fifoPacket where
  writes p := by simp [Layout.fifoPacket, Wire.fifoPacket, payload.writes]
  reads p bs rest := by
    simp only [Wire.readFifoPacket, bind_eq_ok, payload.reads, Layout.fifoPacket, front_number]
    constructor
    · rintro ⟨⟨sequence, m₁⟩, hn, ⟨bytes, m₂⟩, hp, h⟩
      cases h
      exact ⟨m₁, hn, hp⟩
    · rintro ⟨m₁, hn, hp⟩
      exact ⟨(p.sequence, m₁), hn, (p.payload, rest), hp, rfl⟩

theorem causalPacket : Codec Wire.causalPacket Wire.readCausalPacket Layout.causalPacket where
  writes p := by
    cases p with
    | send => simp [Layout.causalPacket, Wire.causalPacket, messageId.writes, processes.writes,
        payload.writes]
    | ack => simp [Layout.causalPacket, Wire.causalPacket, messageId.writes]
  reads p bs rest := by
    simp only [Wire.readCausalPacket, bind_eq_ok]
    constructor
    · rintro ⟨⟨variant, m₁⟩, hv, h⟩
      dsimp only at h
      split at h
      · simp only [bind_eq_ok, messageId.reads, processes.reads, payload.reads] at h
        obtain ⟨⟨id, m₂⟩, hi, ⟨destinations, m₃⟩, hd, ⟨bytes, m₄⟩, hb, h⟩ := h
        cases h
        exact front_number.mpr ⟨m₁, hv, front_append.mpr ⟨m₂, hi, front_append.mpr ⟨m₃, hd, hb⟩⟩⟩
      · simp only [bind_eq_ok, messageId.reads] at h
        obtain ⟨⟨id, m₂⟩, hi, h⟩ := h
        cases h
        exact front_number.mpr ⟨m₁, hv, hi⟩
      · cases h
    · intro h
      cases p with
      | send id destinations bytes =>
        obtain ⟨m₁, hv, h⟩ := front_number.mp h
        obtain ⟨m₂, hi, h⟩ := front_append.mp h
        obtain ⟨m₃, hd, hb⟩ := front_append.mp h
        refine ⟨(0, m₁), hv, ?_⟩
        simp only [bind_eq_ok, messageId.reads, processes.reads, payload.reads]
        exact ⟨(id, m₂), hi, (destinations, m₃), hd, (bytes, rest), hb, rfl⟩
      | ack id =>
        obtain ⟨m₁, hv, hi⟩ := front_number.mp h
        refine ⟨(1, m₁), hv, ?_⟩
        simp only [bind_eq_ok, messageId.reads]
        exact ⟨(id, rest), hi, rfl⟩

theorem stateTransfer : Codec Wire.stateTransfer Wire.readStateTransfer Layout.stateTransfer where
  writes t := by simp [Layout.stateTransfer, Wire.stateTransfer, processes.writes]
  reads t bs rest := by
    simp only [Wire.readStateTransfer, bind_eq_ok, processes.reads, Layout.stateTransfer,
      front_number, front_append]
    constructor
    · rintro ⟨⟨viewId, m₁⟩, hv, ⟨members, m₂⟩, hm, ⟨added, m₃⟩, ha, h⟩
      cases h
      exact ⟨m₁, hv, m₂, hm, ha⟩
    · rintro ⟨m₁, hv, m₂, hm, ha⟩
      exact ⟨(t.viewId, m₁), hv, (t.members, m₂), hm, (t.added, rest), ha, rfl⟩

theorem envelope : Codec Envelope.encode Envelope.read Layout.envelope where
  writes e := by
    cases e <;> simp [Layout.envelope, Envelope.encode, fifoPacket.writes, causalPacket.writes,
      stateTransfer.writes]
  reads e bs rest := by
    simp only [Envelope.read, bind_eq_ok]
    constructor
    · rintro ⟨⟨variant, m₁⟩, hv, h⟩
      dsimp only at h
      split at h
      · simp only [bind_eq_ok, fifoPacket.reads] at h
        obtain ⟨⟨packet, m₂⟩, hp, h⟩ := h
        cases h
        exact front_number.mpr ⟨m₁, hv, hp⟩
      · simp only [bind_eq_ok, causalPacket.reads] at h
        obtain ⟨⟨packet, m₂⟩, hp, h⟩ := h
        cases h
        exact front_number.mpr ⟨m₁, hv, hp⟩
      · simp only [bind_eq_ok, stateTransfer.reads] at h
        obtain ⟨⟨transfer, m₂⟩, hp, h⟩ := h
        cases h
        exact front_number.mpr ⟨m₁, hv, hp⟩
      · cases h
    · intro h
      cases e with
      | fifo packet =>
        obtain ⟨m₁, hv, hp⟩ := front_number.mp h
        refine ⟨(0, m₁), hv, ?_⟩
        simp only [bind_eq_ok, fifoPacket.reads]
        exact ⟨(packet, rest), hp, rfl⟩
      | causal packet =>
        obtain ⟨m₁, hv, hp⟩ := front_number.mp h
        refine ⟨(1, m₁), hv, ?_⟩
        simp only [bind_eq_ok, causalPacket.reads]
        exact ⟨(packet, rest), hp, rfl⟩
      | state transfer =>
        obtain ⟨m₁, hv, hp⟩ := front_number.mp h
        refine ⟨(2, m₁), hv, ?_⟩
        simp only [bind_eq_ok, stateTransfer.reads]
        exact ⟨(transfer, rest), hp, rfl⟩

end Codec

/-! ### Envelopes -/

/-- The length of the address is a 64-bit number. -/
def Proc.Sized (p : Proc) : Prop := (Bytes.ofText p.address).length < 2 ^ 64

/-- The processes and their number are sized. -/
def Proc.SizedAll (ps : List Proc) : Prop := ps.length < 2 ^ 64 ∧ ∀ p ∈ ps, p.Sized

def MessageId.Sized (i : MessageId) : Prop := i.sender.Sized ∧ i.sequence < 2 ^ 64

namespace Envelope
open Piece

/-- Sequence numbers, view numbers and lengths are 64-bit numbers. -/
def Sized : Envelope → Prop
  | .fifo packet => packet.sequence < 2 ^ 64 ∧ packet.payload.length < 2 ^ 64
  | .causal (.send id destinations payload) =>
    id.Sized ∧ Proc.SizedAll destinations ∧ payload.length < 2 ^ 64
  | .causal (.ack id) => id.Sized
  | .state transfer =>
    transfer.viewId < 2 ^ 64 ∧ Proc.SizedAll transfer.members ∧ Proc.SizedAll transfer.added

theorem fit_process {p : Proc} : Fit (Layout.process p) ↔ p.Sized := by
  have hport := p.port.toNat_lt
  have hincarnation := p.incarnation.toNat_lt
  simp [Layout.process, Layout.text, Layout.payload, Proc.Sized, hport, hincarnation]

theorem fit_processes {ps : List Proc} : Fit (Layout.processes ps) ↔ Proc.SizedAll ps := by
  have hall : Fit (ps.flatMap Layout.process) ↔ ∀ p ∈ ps, p.Sized := by
    induction ps with
    | nil => simp
    | cons p ps ih => simp [fit_process, ih]
  rw [Layout.processes, fit_number, hall, Proc.SizedAll]

theorem fit_messageId {i : MessageId} : Fit (Layout.messageId i) ↔ i.Sized := by
  simp [Layout.messageId, fit_process, MessageId.Sized]

theorem fit_envelope {e : Envelope} : Fit (Layout.envelope e) ↔ e.Sized := by
  cases e with
  | fifo packet => simp [Layout.envelope, Layout.fifoPacket, Layout.payload, Sized]
  | causal packet =>
    cases packet <;> simp [Layout.envelope, Layout.causalPacket, Layout.payload, fit_messageId,
      fit_processes, Sized]
  | state transfer => simp [Layout.envelope, Layout.stateTransfer, fit_processes, Sized]

theorem decode_eq_ok {bs : Bytes} {e : Envelope} :
    decode bs = .ok e ↔ ∃ rest, read bs = .ok (e, rest) := by
  unfold decode
  cases read bs with
  | error err => simp [Except.map]
  | ok result => simp [Except.map, Prod.ext_iff]

theorem decode_encode {e : Envelope} (h : e.Sized) (t : Bytes) :
    decode (e.encode ++ t) = .ok e := by
  have hfront : Front (Layout.envelope e) (encodeAll (Layout.envelope e) ++ t) t :=
    front_encodeAll (fit_envelope.mpr h)
  rw [Codec.envelope.writes] at hfront
  exact decode_eq_ok.mpr ⟨t, (Codec.envelope.reads e _ _).mpr hfront⟩

/-- An envelope is read back whatever follows its encoding, so that no encoding begins another.
What is read as an envelope encodes no longer, and to the same bytes if all numbers in them are
minimal. -/
theorem encoding_canonical :
    (∀ e : Envelope, e.Sized → ∀ t, decode (e.encode ++ t) = .ok e) ∧
    (∀ e e' : Envelope, e.Sized → e'.Sized → e.encode <+: e'.encode → e = e') ∧
    ∀ (b : Bytes) (e : Envelope), decode b = .ok e →
      decode e.encode = .ok e ∧
      ∃ consumed rest, b = consumed ++ rest ∧ read b = .ok (e, rest) ∧
        e.encode.length ≤ consumed.length ∧
        (∃ vs, Spelling (Layout.envelope e) vs consumed) ∧
        ∀ vs, Spelling (Layout.envelope e) vs consumed →
          (e.encode = consumed ↔ ∀ v ∈ vs, Varint.Minimal v) := by
  refine ⟨fun e he t => decode_encode he t, ?_, ?_⟩
  · rintro e e' he he' ⟨t, ht⟩
    have hread := decode_encode he t
    have hread' := decode_encode he' []
    rw [List.append_nil, ← ht, hread] at hread'
    exact Except.ok.inj hread'
  · intro b e hb
    obtain ⟨rest, hread⟩ := decode_eq_ok.mp hb
    obtain ⟨vs, consumed, hspelling, rfl⟩ := (Codec.envelope.reads e _ _).mp hread
    have hagain := decode_encode (fit_envelope.mp hspelling.fit) []
    rw [List.append_nil] at hagain
    have hcanonical := fun ws (hs : Spelling (Layout.envelope e) ws consumed) => hs.encodeAll
    rw [Codec.envelope.writes] at hcanonical
    exact ⟨hagain, consumed, rest, rfl, hread, (hcanonical vs hspelling).1, ⟨vs, hspelling⟩,
      fun ws hs => (hcanonical ws hs).2⟩

/-- A packet with a byte behind it, and its sequence number spelled with a group too many. -/
def padded : Bytes := [0, 133, 0, 1, 42, 9]

theorem padded_canonical : let e : Envelope := .fifo ⟨5, [42]⟩
    e.Sized ∧ decode padded = .ok e ∧ decode (e.encode ++ [9]) = .ok e ∧
      Spelling (Layout.envelope e) [[0], [133, 0], [1]] [0, 133, 0, 1, 42] ∧
      e.encode ≠ [0, 133, 0, 1, 42] := by
  intro e
  obtain ⟨hlossless, -, hback⟩ := encoding_canonical
  have hsized : e.Sized := ⟨by decide, by decide⟩
  have hspelling : Spelling (Layout.envelope e) [[0], [133, 0], [1]] [0, 133, 0, 1, 42] :=
    .number (v := [0]) rfl (.number (v := [133, 0]) rfl (.number (v := [1]) rfl (.bytes .nil)))
  obtain ⟨-, consumed, rest, hsplit, hread, -, -, hiff⟩ := hback padded e rfl
  obtain rfl : rest = [9] := by
    have hrest : Except.ok (e, [9]) = Except.ok (e, rest) := hread
    simpa using hrest.symm
  obtain rfl : consumed = [0, 133, 0, 1, 42] := List.append_cancel_right hsplit.symm
  refine ⟨hsized, rfl, hlossless e hsized [9], hspelling, fun he => ?_⟩
  exact absurd ((hiff _ hspelling).mp he) (by decide)

end Envelope

end Multicast
