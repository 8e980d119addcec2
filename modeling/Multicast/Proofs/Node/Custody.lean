import Mathlib.Data.List.Induction
import Multicast.Proofs.Node.PeerTable

/-! What becomes of the messages for one process. The table keeps each of them until the connection
that took it asks for the next one, or is replaced by another and closed in good order. -/
namespace Multicast

/-- How a transport answers when it is handed a message. -/
inductive Verdict where
  | taken
  | tooLarge
  | failed
  deriving DecidableEq, Repr

def Verdict.of : Except NetError Unit → Verdict
  | .ok () => .taken
  | .error (.frameTooLarge _ _) => .tooLarge
  | .error _ => .failed

/-- A call that a peer table makes on its transport. -/
inductive Call where
  | offered (c : ConnectionId) (payload : Bytes) (verdict : Verdict)
  | closed (c : ConnectionId)
  | started (c : ConnectionId)
  deriving DecidableEq, Repr

/-- A transport, and the calls made on it, oldest first. -/
structure Watched (τ : Type) where
  net : τ
  calls : List Call := []

namespace Watched

variable {τ : Type} [Carrier τ]

instance : Carrier (Watched τ) where
  connect w p := ((Carrier.connect w.net p).1, { w with net := (Carrier.connect w.net p).2 })
  disconnect w c := { w with net := Carrier.disconnect w.net c }
  close w c := { net := Carrier.close w.net c, calls := w.calls ++ [.closed c] }
  setMessage w c payload :=
    ((Carrier.setMessage w.net c payload).1,
      { net := (Carrier.setMessage w.net c payload).2
        calls := w.calls ++
          [.offered c payload (Verdict.of (Carrier.setMessage w.net c payload).1)] })
  start w c :=
    ((Carrier.start w.net c).1,
      { net := (Carrier.start w.net c).2, calls := w.calls ++ [.started c] })

theorem over_net : Carrier.Over (net : Watched τ → τ) :=
  ⟨fun _ _ => rfl, fun _ _ => rfl, fun _ _ => rfl, fun _ _ _ => rfl, fun _ _ => rfl⟩

end Watched

/-! ### The record of one process -/

/-- What happens about the messages for a process. -/
inductive Custody.Entry where
  /-- A message is given to the table. -/
  | given (payload : Bytes)
  | called (k : Call)
  /-- The connection of the process asks for the next message. -/
  | confirmed (c : ConnectionId)
  /-- The connection of the process was closed in good order, and another one has taken its
  place. -/
  | retired (c : ConnectionId)
  /-- The connection of the process is lost. -/
  | lost (c : ConnectionId)
  deriving DecidableEq, Repr

/-- How the table is done with a message. -/
inductive Custody.Fate where
  | released
  | dropped
  deriving DecidableEq, Repr

namespace Custody

/-- What a record says of the messages. -/
structure Ledger where
  /-- All messages, in the order in which they were given. -/
  given : List Bytes := []
  /-- The messages that the table is done with, in the order in which it was. -/
  settled : List (Bytes × Fate) := []
  /-- The message that a connection has taken, and may still have to be given again. -/
  underway : Option (ConnectionId × Bytes) := none
  deriving DecidableEq, Repr

namespace Ledger

/-- A message that was taken is released when its connection is done with it. -/
def release (l : Ledger) (c : ConnectionId) : Ledger :=
  match l.underway with
  | some (d, payload) =>
    if c = d then { l with settled := l.settled ++ [(payload, .released)], underway := none } else l
  | none => l

def enter (l : Ledger) : Entry → Ledger
  | .given payload => { l with given := l.given ++ [payload] }
  | .called (.offered c payload .taken) => { l with underway := some (c, payload) }
  | .called (.offered _ payload .tooLarge) =>
    { l with settled := l.settled ++ [(payload, .dropped)] }
  | .called (.offered _ _ .failed) | .called (.closed _) | .called (.started _) => l
  | .confirmed c | .retired c => l.release c
  | .lost c => if l.underway.map (·.1) = some c then { l with underway := none } else l

def after (entries : List Entry) : Ledger := entries.foldl enter {}

/-- The messages that were released, in the order in which they were. -/
def released (l : Ledger) : List Bytes := (l.settled.filter (·.2 = .released)).map (·.1)

end Ledger

/-- What is left of messages without those that were dropped. -/
def keep : List Fate → List Bytes → List Bytes
  | [], payloads => payloads
  | _, [] => []
  | .released :: fates, payload :: payloads => payload :: keep fates payloads
  | .dropped :: fates, _ :: payloads => keep fates payloads

/-- A connection takes a message. -/
abbrev Entry.taken (c : ConnectionId) (payload : Bytes) : Entry :=
  .called (.offered c payload .taken)

/-- How many messages are settled. This is the place of the next one to settle among all that were
given. -/
def place (entries : List Entry) : Nat := (Ledger.after entries).settled.length

/-- The message that is given in an entry. -/
def Entry.payload? : Entry → Option Bytes
  | .given payload => some payload
  | _ => none

variable {l : Ledger} {entries xs ys zs : List Entry} {e : Entry} {link : PeerLink}
  {link? : Option PeerLink} {peer : Peer}
  {payload : Bytes} {payloads outbox : List Bytes} {settled : List (Bytes × Fate)}
  {c : ConnectionId} {key : Option ConnectionKey}

theorem after_append_singleton :
    Ledger.after (entries ++ [e]) = (Ledger.after entries).enter e := by
  simp [Ledger.after, List.foldl_append]

theorem release_cases : l.release c = l ∨ ∃ payload, l.underway = some (c, payload) ∧
    l.release c =
      { l with settled := l.settled ++ [(payload, .released)], underway := none } := by
  rw [Ledger.release]
  cases hunderway : l.underway with
  | none => exact .inl rfl
  | some x =>
    by_cases hc : c = x.1
    · exact .inr ⟨x.2, by rw [hc], by simp [hc]⟩
    · exact .inl (if_neg hc)

theorem given_release : (l.release c).given = l.given := by
  obtain hsame | ⟨_, -, hdone⟩ := @release_cases l c
  · rw [hsame]
  · rw [hdone]

theorem settled_release : l.settled <+: (l.release c).settled := by
  obtain hsame | ⟨_, -, hdone⟩ := @release_cases l c
  · exact ⟨[], (List.append_nil _).trans (congrArg Ledger.settled hsame).symm⟩
  · rw [hdone]
    exact List.prefix_append _ _

theorem given_enter : (l.enter e).given = l.given ++ e.payload?.toList := by
  fun_cases Ledger.enter l e with
  | case1 => rfl
  | case7 | case8 => exact given_release.trans (List.append_nil _).symm
  | case2 | case3 | case4 | case5 | case6 | case9 | case10 => exact (List.append_nil _).symm

theorem given_after : (Ledger.after entries).given = entries.filterMap Entry.payload? := by
  induction entries using List.reverseRecOn with
  | nil => rfl
  | append_singleton entries e ih =>
    rw [after_append_singleton, given_enter, ih, List.filterMap_append]
    cases hpayload : e.payload? <;> simp [hpayload]

theorem settled_enter : l.settled <+: (l.enter e).settled := by
  fun_cases Ledger.enter l e with
  | case3 => exact List.prefix_append _ _
  | case7 | case8 => exact settled_release
  | case1 | case2 | case4 | case5 | case6 | case9 | case10 => exact List.prefix_refl _

/-- What is settled stays settled. -/
theorem place_le : place xs ≤ place (xs ++ ys) := by
  induction ys using List.reverseRecOn with
  | nil => exact Nat.le_of_eq (congrArg place (List.append_nil xs).symm)
  | append_singleton ys e ih =>
    rw [← List.append_assoc, place, place, after_append_singleton]
    exact Nat.le_trans ih settled_enter.length_le

/-- The messages that are not settled are kept behind the released ones. -/
theorem keep_settled : keep (settled.map (·.2)) (settled.map (·.1) ++ payloads) =
    (settled.filter (·.2 = .released)).map (·.1) ++ payloads := by
  induction settled with
  | nil => cases payloads <;> rfl
  | cons x settled ih =>
    obtain ⟨payload, fate⟩ := x
    cases fate <;> simpa [keep] using ih

/-- A message is handed over in its turn: all that were given before it are settled, and none is
under way. -/
def Due (l : Ledger) : Entry → Prop
  | .called (.offered _ payload _) => l.underway = none ∧ l.given[l.settled.length]? = some payload
  | _ => True

/-- The record agrees with what the table holds for the process. -/
structure Sound (entries : List Entry) (link : Option PeerLink) (outbox : List Bytes) : Prop where
  given : (Ledger.after entries).given = (Ledger.after entries).settled.map (·.1) ++
    (link.bind (·.inFlight)).toList ++ outbox
  underway : (Ledger.after entries).underway =
    link.bind fun l => l.inFlight.map (l.connection, ·)
  ready : ∀ l, link = some l → l.ready = true → l.inFlight = none
  due : ∀ xs e, xs ++ [e] <+: entries → Due (Ledger.after xs) e

theorem due_append (h : ∀ xs e, xs ++ [e] <+: entries → Due (Ledger.after xs) e)
    (he : Due (Ledger.after entries) e) :
    ∀ xs e', xs ++ [e'] <+: entries ++ [e] → Due (Ledger.after xs) e' := by
  intro xs e' hxs
  rcases List.prefix_concat_iff.mp hxs with heq | hxs
  · obtain ⟨rfl, hlast⟩ := List.append_inj' heq rfl
    obtain rfl := List.singleton_inj.mp hlast
    exact he
  · exact h xs e' hxs

theorem Sound.give (h : Sound entries link? outbox) :
    Sound (entries ++ [.given payload]) link? (outbox ++ [payload]) := by
  refine ⟨?_, ?_, h.ready, due_append h.due trivial⟩
  · rw [after_append_singleton]
    change (Ledger.after entries).given ++ [payload] = _
    rw [h.given, List.append_assoc]
    rfl
  · rw [after_append_singleton]
    exact h.underway

/-- To close or start a connection says nothing about messages. -/
theorem Sound.call (h : Sound entries link? outbox) {k : Call}
    (hk : ∀ c payload verdict, k ≠ .offered c payload verdict) :
    Sound (entries ++ [.called k]) link? outbox := by
  have hsame : (Ledger.after entries).enter (.called k) = Ledger.after entries := by
    cases k with
    | offered c payload verdict => exact (hk c payload verdict rfl).elim
    | closed | started => rfl
  have hdue : Due (Ledger.after entries) (.called k) := by
    cases k with
    | offered c payload verdict => exact (hk c payload verdict rfl).elim
    | closed | started => trivial
  refine ⟨?_, ?_, h.ready, due_append h.due hdue⟩
  · rw [after_append_singleton, hsame]
    exact h.given
  · rw [after_append_singleton, hsame]
    exact h.underway

theorem Sound.adopt (h : Sound entries none outbox) :
    Sound entries (some ⟨c, key, false, none⟩) outbox :=
  ⟨h.given, h.underway, fun _ hl _ => by cases hl; rfl, h.due⟩

/-! ### Hand-over -/

section Offer

variable (h : Sound entries (some link) (payload :: outbox)) (hready : link.ready = true)
include h hready

theorem Sound.idle : (Ledger.after entries).underway = none ∧
    (Ledger.after entries).given =
      (Ledger.after entries).settled.map (·.1) ++ payload :: outbox := by
  have hnone : link.inFlight = none := h.ready link rfl hready
  refine ⟨?_, ?_⟩
  · rw [h.underway, Option.bind_some, hnone]
    rfl
  · rw [h.given, Option.bind_some, hnone, Option.toList_none, List.append_nil]

theorem Sound.turn {verdict : Verdict} :
    Due (Ledger.after entries) (.called (.offered c payload verdict)) := by
  obtain ⟨hidle, hgiven⟩ := h.idle hready
  refine ⟨hidle, ?_⟩
  rw [hgiven, List.getElem?_append_right (by simp)]
  simp

theorem Sound.taken : Sound (entries ++ [.called (.offered link.connection payload .taken)])
    (some { link with ready := false, inFlight := some payload }) outbox := by
  refine ⟨?_, ?_, ?_, due_append h.due (h.turn hready)⟩
  · rw [after_append_singleton]
    change (Ledger.after entries).given = _
    rw [(h.idle hready).2, List.append_assoc]
    rfl
  · rw [after_append_singleton]
    rfl
  · intro l hl hagain
    cases hl
    cases hagain

theorem Sound.tooLarge : Sound (entries ++ [.called (.offered c payload .tooLarge)])
    (some link) outbox := by
  obtain ⟨hidle, hgiven⟩ := h.idle hready
  have hnone : link.inFlight = none := h.ready link rfl hready
  refine ⟨?_, ?_, h.ready, due_append h.due (h.turn hready)⟩
  · rw [after_append_singleton]
    change (Ledger.after entries).given = ((Ledger.after entries).settled ++ [_]).map _ ++ _ ++ _
    rw [hgiven, Option.bind_some, hnone, List.map_append]
    simp
  · rw [after_append_singleton]
    exact h.underway

theorem Sound.failed : Sound (entries ++ [.called (.offered c payload .failed)])
    (some { link with ready := false }) (payload :: outbox) := by
  refine ⟨?_, ?_, ?_, due_append h.due (h.turn hready)⟩
  · rw [after_append_singleton]
    exact h.given
  · rw [after_append_singleton]
    exact h.underway
  · intro l hl hagain
    cases hl
    cases hagain

end Offer

/-! ### Release and loss -/

/-- When the connection is done with its message, nothing is under way. -/
theorem Sound.release (h : Sound entries (some link) outbox) :
    let l := (Ledger.after entries).release link.connection
    l.given = l.settled.map (·.1) ++ outbox ∧ l.underway = none := by
  have hgiven := h.given
  have hunderway := h.underway
  rw [Option.bind_some] at hgiven hunderway
  cases hflight : link.inFlight with
  | none =>
    rw [hflight] at hgiven hunderway
    have hunderway : (Ledger.after entries).underway = none := hunderway
    simp only [Ledger.release, hunderway]
    simpa using hgiven
  | some payload =>
    rw [hflight] at hgiven hunderway
    have hunderway : (Ledger.after entries).underway = some (link.connection, payload) := hunderway
    simp only [Ledger.release, hunderway, if_true]
    simpa using hgiven

theorem Sound.done {free : PeerLink} (h : Sound entries (some link) outbox)
    (he : e = .confirmed link.connection ∨ e = .retired link.connection)
    (hfree : free.inFlight = none) : Sound (entries ++ [e]) (some free) outbox := by
  obtain ⟨hgiven, hunderway⟩ := h.release
  have hafter : Ledger.after (entries ++ [e]) =
      (Ledger.after entries).release link.connection := by
    rw [after_append_singleton]
    rcases he with rfl | rfl <;> rfl
  have hdue : Due (Ledger.after entries) e := by
    rcases he with rfl | rfl <;> trivial
  refine ⟨?_, ?_, ?_, due_append h.due hdue⟩
  · rw [hafter, hgiven, Option.bind_some, hfree, Option.toList_none, List.append_nil]
  · rw [hafter, hunderway, Option.bind_some, hfree]
    rfl
  · intro l hl _
    cases hl
    exact hfree

theorem Sound.lose (h : Sound entries (some link) outbox) :
    Sound (entries ++ [.lost link.connection]) none (link.inFlight.toList ++ outbox) := by
  have hunderway : (Ledger.after entries).underway =
      link.inFlight.map (link.connection, ·) := h.underway
  have hnone : ((Ledger.after entries).enter (.lost link.connection)).underway = none := by
    rw [Ledger.enter]
    split
    · rfl
    · cases hflight : link.inFlight <;> simp_all
  have hsame : ((Ledger.after entries).enter (.lost link.connection)).given =
      (Ledger.after entries).given ∧
      ((Ledger.after entries).enter (.lost link.connection)).settled =
        (Ledger.after entries).settled := by
    rw [Ledger.enter]
    split <;> exact ⟨rfl, rfl⟩
  refine ⟨?_, ?_, nofun, due_append h.due trivial⟩
  · rw [after_append_singleton, hsame.1, hsame.2, Option.bind_none, Option.toList_none,
      List.append_nil, ← List.append_assoc]
    exact h.given
  · rw [after_append_singleton]
    exact hnone

/-! ### Repeated hand-over -/

/-- What can happen while a message is under way. -/
theorem underway_cases (htaken : l.underway = some (c, payload)) (he : Due l e) :
    e = .lost c ∨ (e = .confirmed c ∨ e = .retired c) ∧
        (l.enter e).settled.length = l.settled.length + 1 ∨
      (e ≠ .confirmed c ∧ e ≠ .retired c) ∧ (l.enter e).underway = some (c, payload) := by
  have hrelease (d : ConnectionId) : d = c ∧ (l.release d).settled.length = l.settled.length + 1 ∨
      d ≠ c ∧ (l.release d).underway = some (c, payload) := by
    rw [Ledger.release, htaken]
    by_cases hd : d = c
    · exact .inl ⟨hd, by simp [hd]⟩
    · exact .inr ⟨hd, by simp [hd, htaken]⟩
  cases e with
  | given => exact .inr (.inr ⟨⟨nofun, nofun⟩, htaken⟩)
  | called k =>
    cases k with
    | offered d again verdict =>
      rw [he.1] at htaken
      cases htaken
    | closed | started => exact .inr (.inr ⟨⟨nofun, nofun⟩, htaken⟩)
  | confirmed d =>
    rcases hrelease d with ⟨rfl, hsettled⟩ | ⟨hd, hunderway⟩
    · exact .inr (.inl ⟨.inl rfl, hsettled⟩)
    · exact .inr (.inr ⟨⟨fun heq => hd (Entry.confirmed.inj heq), nofun⟩, hunderway⟩)
  | retired d =>
    rcases hrelease d with ⟨rfl, hsettled⟩ | ⟨hd, hunderway⟩
    · exact .inr (.inl ⟨.inr rfl, hsettled⟩)
    · exact .inr (.inr ⟨⟨nofun, fun heq => hd (Entry.retired.inj heq)⟩, hunderway⟩)
  | lost d =>
    by_cases hd : d = c
    · exact .inl (congrArg _ hd)
    · refine .inr (.inr ⟨⟨nofun, nofun⟩, ?_⟩)
      simp [Ledger.enter, htaken, Ne.symm hd]

/-- If nothing is settled, only the loss of its connection lets a message go that is under way. -/
theorem lost_of_idle (hdue : ∀ xs e, xs ++ [e] <+: entries → Due (Ledger.after xs) e)
    (htaken : (Ledger.after xs).underway = some (c, payload)) (hys : xs ++ ys <+: entries)
    (hidle : (Ledger.after (xs ++ ys)).underway = none) (hplace : place (xs ++ ys) = place xs) :
    ∃ us vs, ys = us ++ .lost c :: vs ∧ .confirmed c ∉ us ∧ .retired c ∉ us := by
  induction ys generalizing xs with
  | nil =>
    rw [List.append_nil, htaken] at hidle
    cases hidle
  | cons e ys ih =>
    rw [← List.singleton_append, ← List.append_assoc] at hys hidle hplace
    have hfirst : Due (Ledger.after xs) e := hdue xs e ((List.prefix_append _ ys).trans hys)
    have hle : place xs ≤ place (xs ++ [e]) := place_le
    have hrest : place (xs ++ [e]) ≤ place (xs ++ [e] ++ ys) := place_le
    rcases underway_cases htaken hfirst with rfl | ⟨-, hsettled⟩ | ⟨⟨hconfirmed, hretired⟩, hstays⟩
    · exact ⟨[], ys, rfl, List.not_mem_nil, List.not_mem_nil⟩
    · rw [← after_append_singleton] at hsettled
      unfold place at *
      omega
    · rw [← after_append_singleton] at hstays
      obtain ⟨us, vs, rfl, hus⟩ := ih hstays hys hidle (by omega)
      refine ⟨e :: us, vs, rfl, ?_, ?_⟩
      · exact List.not_mem_cons_of_ne_of_not_mem (Ne.symm hconfirmed) hus.1
      · exact List.not_mem_cons_of_ne_of_not_mem (Ne.symm hretired) hus.2

/-- A message that is handed over a second time was under way on a connection that was lost. -/
theorem Sound.again {us vs : List Entry} {d : ConnectionId} {x y : Bytes}
    (h : Sound entries link? outbox)
    (htwice : entries = xs ++ .taken c x :: us ++ .taken d y :: vs)
    (hplace : place (xs ++ .taken c x :: us) = place xs) :
    ∃ before rest, us = before ++ .lost c :: rest ∧ .confirmed c ∉ before ∧
      .retired c ∉ before := by
  have hfirst : xs ++ .taken c x :: us = xs ++ [.taken c x] ++ us := by simp
  have hdue : Due (Ledger.after (xs ++ .taken c x :: us)) (.taken d y) :=
    h.due _ _ ⟨vs, by rw [htwice]; simp⟩
  have htaken : (Ledger.after (xs ++ [.taken c x])).underway = some (c, x) := by
    rw [after_append_singleton]
    rfl
  rw [hfirst] at hdue hplace
  have hsame : place (xs ++ [.taken c x]) = place xs := by
    rw [place, after_append_singleton]
    rfl
  refine lost_of_idle h.due htaken ⟨.taken d y :: vs, ?_⟩ hdue.1 (hplace.trans hsame.symm)
  rw [htwice]
  simp

end Custody

/-! ### What the table does -/

/-- A peer that has lost a connection. -/
def Peer.without (peer : Peer) (c : ConnectionId) : Peer :=
  if peer.dialing = some c then { peer with dialing := none }
  else
    match peer.link with
    | none => peer
    | some link =>
      if link.connection = c then
        { peer with link := none, outbox := link.inFlight.toList ++ peer.outbox }
      else peer

namespace PeerTable
open Custody

variable {τ : Type} [Carrier τ] {t : PeerTable} {w : Watched τ} {p q : Proc} {c : ConnectionId}
  {key : Option ConnectionKey} {remote : Option Proc} {reason : String} {link : PeerLink}
  {payload : Bytes} {outbox : List Bytes} {entries : List Entry}

theorem peer_onLost : (t.onLost c remote reason).2.peer p =
    if (t.ownerOf? c).or remote = some p then (t.peer p).without c else t.peer p := by
  cases howner : (t.ownerOf? c).or remote with
  | none => simp [onLost, howner]
  | some q =>
    by_cases hq : q = p
    · subst hq
      rw [if_pos rfl]
      cases hpeer : t.peers.get? q with
      | none =>
        have hnobody : t.peer q = {} := by rw [PeerTable.peer, hpeer, Option.getD_none]
        simp only [onLost, howner, hpeer]
        exact hnobody.trans (by rw [hnobody]; rfl)
      | some peer =>
        have hknown : t.peer q = peer := peer_of_get? hpeer
        simp only [onLost, howner, hpeer, hknown, Peer.without]
        split
        · exact peer_set_self
        · cases peer.link with
          | none => exact hknown
          | some link =>
            dsimp only
            split
            · exact peer_set_self
            · exact hknown
    · rw [if_neg (by simpa using hq)]
      simp only [onLost, howner]
      split
      · rfl
      · split
        · exact peer_set_of_ne (Ne.symm hq)
        · split
          · rfl
          · split
            · exact peer_set_of_ne (Ne.symm hq)
            · rfl

/-- The record of a process agrees with the table. -/
def Keeps (t : PeerTable) (p : Proc) (entries : List Entry) : Prop :=
  Sound entries (t.peer p).link (t.peer p).outbox

theorem sound_handOver (h : Sound entries (some link) outbox) (hready : link.ready = true) :
    ∃ calls, (handOver link w outbox).2.2.calls = w.calls ++ calls ∧
      Sound (entries ++ calls.map .called) (some (handOver link w outbox).1)
        (handOver link w outbox).2.1 := by
  -- Each message that is too large leaves the outbox, with the link as ready as it was.
  induction outbox generalizing entries w with
  | nil => exact ⟨[], (List.append_nil _).symm, by simpa [handOver] using h⟩
  | cons payload outbox ih =>
    let net := (Carrier.setMessage w.net link.connection payload).2
    rw [handOver]
    have hset : Carrier.setMessage w link.connection payload =
        ((Carrier.setMessage w.net link.connection payload).1,
          ⟨net, w.calls ++ [.offered link.connection payload
            (Verdict.of (Carrier.setMessage w.net link.connection payload).1)]⟩) := rfl
    rw [hset]
    generalize (Carrier.setMessage w.net link.connection payload).1 = verdict
    cases verdict with
    | ok done => exact ⟨[_], rfl, h.taken hready⟩
    | error e =>
      cases e with
      | frameTooLarge len max =>
        obtain ⟨calls, hcalls, hsound⟩ := ih (w := ⟨net, w.calls ++ [_]⟩) (h.tooLarge hready)
        refine ⟨.offered link.connection payload .tooLarge :: calls, ?_, ?_⟩
        · exact hcalls.trans (List.append_assoc ..)
        · rw [List.append_assoc] at hsound
          exact hsound
      | io | bindFailed | resolve | unresolvable | handshake | handshakeMismatch
      | handshakeIncomplete | truncatedFrame | notConnected | unknownConnection
      | slotOccupied => exact ⟨[_], rfl, h.failed hready⟩

theorem peer_pump_of_ne (hq : q ≠ p) : (t.pump p w).1.peer q = t.peer q := by
  unfold pump
  dsimp only
  split
  · rfl
  · exact peer_set_of_ne hq

theorem keeps_pump (h : t.Keeps p entries) : ∃ calls, (t.pump p w).2.calls = w.calls ++ calls ∧
    (t.pump p w).1.Keeps p (entries ++ calls.map .called) := by
  unfold pump
  dsimp only
  split
  · exact ⟨[], (List.append_nil _).symm, by simpa using h⟩
  · rename_i link hlink
    obtain ⟨hlink, hready⟩ := Option.filter_eq_some_iff.mp hlink
    rw [Keeps, hlink] at h
    obtain ⟨calls, hcalls, hsound⟩ := sound_handOver (w := w) h hready
    refine ⟨calls, hcalls, ?_⟩
    rw [Keeps, peer_set_self]
    exact hsound

/-- To dial does not touch the messages. -/
theorem keeps_dial (h : t.Keeps p entries) : (t.dial q w).1.Keeps p entries := by
  by_cases hq : p = q
  · subst hq
    rw [Keeps, dial, peer_set_self]
    exact h
  · rw [Keeps, dial, peer_set_of_ne hq]
    exact h

/-! ### Operations -/

inductive Operation where
  | ensure (q : Proc)
  | send (q : Proc) (payload : Bytes)
  | forget (q : Proc)
  | establish (c : ConnectionId) (q : Proc) (key : Option ConnectionKey)
  | ready (c : ConnectionId)
  | lose (c : ConnectionId) (remote : Option Proc) (reason : String)
  deriving DecidableEq, Repr

/-- The message that an operation gives to the table for `p`. -/
def Operation.payloadFor? (p : Proc) : Operation → Option Bytes
  | .send q payload => if q = p then some payload else none
  | _ => none

def act {σ : Type} [Carrier σ] (t : PeerTable) (net : σ) : Operation → PeerTable × σ
  | .ensure q => t.ensure q net
  | .send q payload => t.send q payload net
  | .forget q => t.forget q net
  | .establish c q key => (t.onEstablished c q key net).2
  | .ready c => t.onReady c net
  | .lose c remote reason => ((t.onLost c remote reason).2, net)

/-- The process that an operation is about. -/
def subject? (t : PeerTable) : Operation → Option Proc
  | .ensure q | .send q _ | .forget q | .establish _ q _ => some q
  | .ready c => t.ownerOf? c
  | .lose c remote _ => (t.ownerOf? c).or remote

/-- What an operation means for a process, before the transport is called. -/
def begins (peer : Peer) : Operation → List Entry
  | .send _ payload => [.given payload]
  | .ready c => if peer.link.map (·.connection) = some c then [.confirmed c] else []
  | _ => []

/-- What it means after the calls. A connection is replaced by closing it and starting another; it
is lost if the process has none any more. -/
def ends (peer after : Peer) (calls : List Call) : Operation → List Entry
  | .establish c _ _ =>
    match peer.link with
    | some link =>
      if calls = [.closed link.connection, .started c] then [.retired link.connection] else []
    | none => []
  | .lose c _ _ => if peer.link.isSome ∧ after.link = none then [.lost c] else []
  | _ => []

/-- What happens about the messages for `p` in an operation. -/
def entriesOf (p : Proc) (t : PeerTable) (net : τ) (o : Operation) : List Entry :=
  if t.subject? o = some p then
    let r := t.act (⟨net, []⟩ : Watched τ) o
    begins (t.peer p) o ++ r.2.calls.map .called ++ ends (t.peer p) (r.1.peer p) r.2.calls o
  else []

variable {o : Operation} {net : τ}

theorem act_watched : t.act net o =
    ((t.act (⟨net, []⟩ : Watched τ) o).1, (t.act (⟨net, []⟩ : Watched τ) o).2.net) := by
  let w : Watched τ := ⟨net, []⟩
  cases o with
  | ensure q => exact ensure_over (s := w) Watched.over_net
  | send q payload =>
    have hsame : t.send q payload w.net = _ := send_over Watched.over_net
    exact hsame
  | forget q => exact forget_over (s := w) Watched.over_net
  | establish c q key => exact congrArg Prod.snd (onEstablished_over (s := w) Watched.over_net)
  | ready c => exact onReady_over (s := w) Watched.over_net
  | lose c remote reason => rfl

theorem keeps_set_of_ne {peer : Peer} (hq : p ≠ q) (h : t.Keeps p entries) :
    (t.set q peer).Keeps p entries := by
  rw [Keeps, peer_set_of_ne hq]
  exact h

theorem keeps_pump_of_ne (hq : p ≠ q) (h : t.Keeps p entries) :
    (t.pump q w).1.Keeps p entries := by
  rw [Keeps, peer_pump_of_ne hq]
  exact h

/-- An operation about another process does not touch the messages. -/
theorem keeps_other (hp : t.subject? o ≠ some p) (h : t.Keeps p entries) :
    (t.act w o).1.Keeps p entries := by
  cases o with
  | ensure q =>
    have hq : p ≠ q := fun heq => hp (congrArg some heq.symm)
    simp only [act, ensure]
    split
    · exact keeps_dial (keeps_set_of_ne hq h)
    · exact keeps_set_of_ne hq h
  | send q payload =>
    have hq : p ≠ q := fun heq => hp (congrArg some heq.symm)
    simp only [act, send]
    split
    · exact keeps_pump_of_ne hq (keeps_set_of_ne hq h)
    · exact keeps_pump_of_ne hq (keeps_dial (keeps_set_of_ne hq h))
  | forget q =>
    have hq : p ≠ q := fun heq => hp (congrArg some heq.symm)
    simp only [act, forget]
    split
    · exact h
    · have hpeer : ((t.peers.erase q).get? p).getD {} = t.peer p := by
        rw [Table.get?_erase, if_neg hq]
        rfl
      rw [Keeps, peer, hpeer]
      exact h
  | establish c q key =>
    have hq : p ≠ q := fun heq => hp (congrArg some heq.symm)
    simp only [act, onEstablished_eq, adopt]
    split
    · exact keeps_set_of_ne hq (keeps_set_of_ne hq h)
    · split
      · exact keeps_set_of_ne hq h
      · exact keeps_set_of_ne hq h
      · exact keeps_set_of_ne hq (keeps_set_of_ne hq h)
  | ready c =>
    simp only [act, onReady]
    cases howner : t.ownerOf? c with
    | none => exact h
    | some q =>
      have hq : p ≠ q := fun heq => hp (howner.trans (congrArg some heq.symm))
      dsimp only
      split
      · exact h
      · exact keeps_pump_of_ne hq (keeps_set_of_ne hq h)
  | lose c remote reason =>
    simp only [act]
    rw [Keeps, peer_onLost, if_neg (show ¬(t.ownerOf? c).or remote = some p from hp)]
    exact h

/-- No message is handed over because a process is announced. -/
theorem keeps_ensure (h : t.Keeps p entries) :
    (t.ensure p w).2.calls = w.calls ∧ (t.ensure p w).1.Keeps p entries := by
  have hset : (t.set p (t.peer p)).Keeps p entries := by
    rw [Keeps, peer_set_self]
    exact h
  simp only [ensure]
  split
  · exact ⟨rfl, keeps_dial hset⟩
  · exact ⟨rfl, hset⟩

section Fresh

variable (hw : w.calls = []) (h : t.Keeps p entries)
include hw h

theorem keeps_pumped : (t.pump p w).1.Keeps p (entries ++ (t.pump p w).2.calls.map .called) := by
  obtain ⟨calls, hcalls, hkeeps⟩ := keeps_pump (w := w) h
  rw [hcalls, hw]
  exact hkeeps

theorem keeps_send : (t.send p payload w).1.Keeps p
    (entries ++ ([.given payload] ++ (t.send p payload w).2.calls.map .called)) := by
  have hgiven : (t.set p { t.peer p with outbox := (t.peer p).outbox ++ [payload] }).Keeps p
      (entries ++ [.given payload]) := by
    rw [Keeps, peer_set_self]
    exact Sound.give h
  rw [← List.append_assoc]
  simp only [send]
  split
  · exact keeps_pumped hw hgiven
  · exact keeps_pumped hw (keeps_dial hgiven)

theorem keeps_ready (howner : t.ownerOf? c = some p) : (t.onReady c w).1.Keeps p
    (entries ++ (begins (t.peer p) (.ready c) ++ (t.onReady c w).2.calls.map .called)) := by
  rw [← List.append_assoc]
  simp only [onReady, howner]
  cases hpeer : t.peers.get? p with
  | none =>
    have hnobody : t.peer p = {} := by rw [PeerTable.peer, hpeer, Option.getD_none]
    simpa [hnobody, begins, hw] using h
  | some peer =>
    rw [Keeps, peer_of_get? hpeer] at h
    refine keeps_pumped hw ?_
    rw [Keeps, peer_set_self, peer_of_get? hpeer]
    cases hlink : peer.link with
    | none =>
      rw [hlink] at h
      simpa [begins, hlink] using h
    | some link =>
      rw [hlink] at h
      by_cases hc : link.connection = c
      · subst hc
        simp only [begins, hlink, Option.map_some, if_true]
        exact h.done (.inl rfl) rfl
      · simpa [begins, hlink, hc] using h

theorem keeps_establish : let r := (t.onEstablished c p key w).2
    r.1.Keeps p (entries ++ (r.2.calls.map .called ++
      ends (t.peer p) (r.1.peer p) r.2.calls (.establish c p key))) := by
  have houtbox : ((t.peer p).reached c).outbox = (t.peer p).outbox := by
    unfold Peer.reached
    split <;> rfl
  have hclose (c : ConnectionId) : (Carrier.close w c).calls = [.closed c] :=
    congrArg (· ++ [Call.closed c]) hw
  have hstart {w : Watched τ} (c : ConnectionId) :
      (Carrier.start w c).2.calls = w.calls ++ [.started c] := rfl
  rw [Keeps] at h
  simp only [onEstablished_eq, adopt]
  cases hlink : (t.peer p).link with
  | none =>
    rw [hlink] at h
    simp only [ends, hlink, List.append_nil, Keeps, peer_set_self, houtbox, hstart, hw]
    exact h.adopt.call (by simp)
  | some link =>
    rw [hlink] at h
    dsimp only
    have hclosed (c : ConnectionId) : Sound (entries ++ [.called (.closed c)]) (some link)
        (t.peer p).outbox := h.call (by simp)
    have hkept : (t.set p ((t.peer p).reached c)).Keeps p
        (entries ++ ([.called (.closed c)] ++ [])) := by
      rw [Keeps, peer_set_self, Peer.link_reached, hlink, houtbox, List.append_nil]
      exact hclosed c
    have hstays (after : Peer) : ends (t.peer p) after [.closed c] (.establish c p key) = [] := by
      simp [ends, hlink]
    split
    · rw [hclose, hstays]
      exact hkept
    · rw [hclose, hstays]
      exact hkept
    · simp only [ends, hlink, if_true, Keeps, peer_set_self, houtbox, hstart, hclose,
        List.singleton_append]
      have hstarted : Sound (entries ++ [.called (.closed link.connection)] ++
          [.called (.started c)]) (some link) (t.peer p).outbox := (hclosed _).call (by simp)
      simpa using hstarted.done (.inr rfl) rfl

end Fresh

theorem keeps_lose (howner : (t.ownerOf? c).or remote = some p) (h : t.Keeps p entries) :
    let after := (t.onLost c remote reason).2
    after.Keeps p (entries ++
      ends (t.peer p) (after.peer p) [] (.lose c remote reason)) := by
  dsimp only
  rw [Keeps, peer_onLost, if_pos howner]
  rw [Keeps] at h
  have hstays (after : Peer) (hlink : after.link = (t.peer p).link) :
      ends (t.peer p) after [] (.lose c remote reason) = [] := by
    rw [ends, hlink]
    exact if_neg fun hlost => by simp [hlost.2] at hlost
  unfold Peer.without
  split
  · rw [hstays { t.peer p with dialing := none } rfl, List.append_nil]
    exact h
  · cases hlink : (t.peer p).link with
    | none =>
      dsimp only
      rw [hstays _ rfl, List.append_nil]
      exact h
    | some link =>
      rw [hlink] at h
      dsimp only
      split
      · rename_i hc
        subst hc
        simp only [ends, hlink, Option.isSome_some, and_self, if_true]
        exact h.lose
      · rw [hstays _ rfl, List.append_nil, hlink]
        exact h

theorem keeps_act (ho : o ≠ .forget p) (h : t.Keeps p entries) :
    (t.act net o).1.Keeps p (entries ++ entriesOf p t net o) := by
  rw [act_watched]
  by_cases hp : t.subject? o = some p
  · rw [entriesOf, if_pos hp]
    let w : Watched τ := ⟨net, []⟩
    have hw : w.calls = [] := rfl
    cases o with
    | ensure q =>
      obtain rfl : q = p := Option.some.inj hp
      obtain ⟨hcalls, hkeeps⟩ := keeps_ensure (w := w) h
      change (t.ensure q w).1.Keeps q (entries ++ ((t.ensure q w).2.calls.map .called ++ []))
      rw [hcalls]
      simpa [w] using hkeeps
    | send q payload =>
      obtain rfl : q = p := Option.some.inj hp
      simp only [act, begins, ends, List.append_nil]
      exact keeps_send hw h
    | forget q => exact (ho (congrArg _ (Option.some.inj hp))).elim
    | establish c q key =>
      obtain rfl : q = p := Option.some.inj hp
      exact keeps_establish hw h
    | ready c =>
      simp only [act, ends, List.append_nil]
      exact keeps_ready hw h hp
    | lose c remote reason => exact keeps_lose hp h
  · rw [entriesOf, if_neg hp, List.append_nil]
    exact keeps_other hp h

/-- The record has the messages that are given to the table. -/
theorem given_entriesOf :
    (entriesOf p t net o).filterMap Entry.payload? = (o.payloadFor? p).toList := by
  have hcalls (calls : List Call) : (calls.map Entry.called).filterMap Entry.payload? = [] := by
    simp [List.filterMap_map, Function.comp_def, Entry.payload?]
  have hends (peer after : Peer) (calls : List Call) :
      (ends peer after calls o).filterMap Entry.payload? = [] := by
    unfold ends
    split
    · split
      · split <;> rfl
      · rfl
    · split <;> rfl
    · rfl
  rw [entriesOf]
  split
  · rename_i hp
    dsimp only
    rw [List.filterMap_append, List.filterMap_append, hcalls, hends, List.append_nil,
      List.append_nil]
    cases o with
    | send q payload =>
      have hq : q = p := Option.some.inj hp
      simp [begins, Operation.payloadFor?, Entry.payload?, hq]
    | ready c =>
      simp only [begins]
      split <;> rfl
    | ensure | forget | establish | lose => rfl
  · rename_i hp
    cases o with
    | send q payload =>
      have hq : q ≠ p := fun heq => hp (congrArg some heq)
      simp [Operation.payloadFor?, hq]
    | ensure | forget | establish | ready | lose => rfl

end PeerTable

/-! ### Runs -/

/-- A peer table and its transport, and the record of one process. -/
structure Dispatch (τ : Type) where
  table : PeerTable
  net : τ
  log : List Custody.Entry := []

namespace Dispatch
open Custody

inductive Action (τ : Type) where
  | call (o : PeerTable.Operation)
  /-- The transport goes on by itself. -/
  | advance (f : τ → τ)

variable {τ : Type} [Carrier τ] {s : Dispatch τ} {p : Proc} {a : Action τ}
  {actions : List (Action τ)} {entries xs ys : List Entry} {c : ConnectionId} {payload : Bytes}

def step (p : Proc) (s : Dispatch τ) : Action τ → Dispatch τ
  | .call o => {
      table := (s.table.act s.net o).1
      net := (s.table.act s.net o).2
      log := s.log ++ s.table.entriesOf p s.net o }
  | .advance f => { s with net := f s.net }

def run (p : Proc) (s : Dispatch τ) (actions : List (Action τ)) : Dispatch τ :=
  actions.foldl (step p) s

/-- The messages for `p` that were given to the table. -/
def sentTo (p : Proc) (actions : List (Action τ)) : List Bytes :=
  actions.filterMap fun
    | .call o => o.payloadFor? p
    | .advance _ => none

theorem keeps_step (ha : ∀ o, a = .call o → o ≠ .forget p) (h : s.table.Keeps p s.log) :
    (s.step p a).table.Keeps p (s.step p a).log := by
  cases a with
  | call o => exact PeerTable.keeps_act (ha o rfl) h
  | advance f => exact h

theorem keeps_run (hkept : .call (.forget p) ∉ actions) (h : s.table.Keeps p s.log) :
    (s.run p actions).table.Keeps p (s.run p actions).log := by
  induction actions generalizing s with
  | nil => exact h
  | cons a actions ih =>
    obtain ⟨ha, hrest⟩ := not_or.mp (List.mem_cons.not.mp hkept)
    refine ih hrest (keeps_step ?_ h)
    rintro o rfl rfl
    exact ha rfl

theorem given_step : (s.step p a).log.filterMap Entry.payload? =
    s.log.filterMap Entry.payload? ++ sentTo p [a] := by
  cases a with
  | call o =>
    have hsent : sentTo p [(.call o : Action τ)] = (o.payloadFor? p).toList := by
      cases hpayload : o.payloadFor? p <;> simp [sentTo, hpayload]
    have hgiven : (s.table.entriesOf p s.net o).filterMap Entry.payload? = _ :=
      PeerTable.given_entriesOf
    rw [hsent, ← hgiven]
    exact List.filterMap_append
  | advance f => exact (List.append_nil _).symm

theorem given_run : (s.run p actions).log.filterMap Entry.payload? =
    s.log.filterMap Entry.payload? ++ sentTo p actions := by
  induction actions generalizing s with
  | nil => simp [run, sentTo]
  | cons a actions ih =>
    have hcons : sentTo p ([a] ++ actions) = sentTo p [a] ++ sentTo p actions :=
      List.filterMap_append
    rw [← List.singleton_append, hcons, ← List.append_assoc, ← given_step]
    exact ih

/-- A process that is never forgotten: its messages are first those that the table is done with,
then the one that its connection has taken, then those that wait. Without those that were too large,
the first are those that were released. Messages are handed over in their order, and a second time
only if the connection that took them was lost before it asked for another and before it gave way
to another connection. -/
theorem messages_conserved (here p : Proc) (net : τ) (actions : List (Action τ))
    (hkept : .call (.forget p) ∉ actions) :
    let s := ({ table := { here }, net } : Dispatch τ).run p actions
    let ledger := Ledger.after s.log
    let inFlight := ((s.table.peer p).link.bind (·.inFlight)).toList
    let outbox := (s.table.peer p).outbox
    sentTo p actions = ledger.settled.map (·.1) ++ inFlight ++ outbox ∧
    keep (ledger.settled.map (·.2)) (sentTo p actions) = ledger.released ++ inFlight ++ outbox ∧
    (∀ xs c x ys, s.log = xs ++ .taken c x :: ys → (sentTo p actions)[place xs]? = some x) ∧
    ∀ xs c x us d y vs, s.log = xs ++ .taken c x :: us ++ .taken d y :: vs →
      place xs ≤ place (xs ++ .taken c x :: us) ∧
      (place (xs ++ .taken c x :: us) = place xs →
        ∃ before rest, us = before ++ .lost c :: rest ∧ .confirmed c ∉ before ∧
          .retired c ∉ before) := by
  intro s ledger inFlight outbox
  have hsound : Sound s.log (s.table.peer p).link (s.table.peer p).outbox := by
    refine keeps_run hkept ⟨rfl, rfl, nofun, fun xs e hxs => ?_⟩
    simp at hxs
  have hgiven : ledger.given = sentTo p actions := given_after.trans given_run
  refine ⟨hgiven.symm.trans hsound.given, ?_, ?_, ?_⟩
  · rw [← hgiven, hsound.given, List.append_assoc, keep_settled, ← List.append_assoc]
    rfl
  · intro xs c x ys hlog
    have hdue : Due (Ledger.after xs) (.taken c x) :=
      hsound.due _ _ ⟨ys, by rw [hlog]; simp⟩
    obtain ⟨more, hmore⟩ : ∃ more, sentTo p actions = (Ledger.after xs).given ++ more := by
      rw [← hgiven, given_after, given_after, hlog, List.filterMap_append]
      exact ⟨_, rfl⟩
    have hlt := (List.getElem?_eq_some_iff.mp hdue.2).1
    rw [hmore, place, List.getElem?_append_left hlt]
    exact hdue.2
  · intro xs c x us d y vs hlog
    exact ⟨place_le, hsound.again hlog⟩

/-- A process sends three messages to itself, of which the second is too large. It loses its
connection with the first under way. -/
def threeMessages (a : Proc) : List (Action Transport) :=
  let poll : Action Transport := .advance fun t => (t.poll []).2
  [.call (.send a [1]), poll, .call (.establish 2 a none), .call (.send a [2, 2, 2]),
    .call (.send a [3]), poll, .call (.ready 2), .call (.lose 2 (some a) "closed by peer"),
    .call (.ensure a), poll, .call (.establish 3 a none), poll, .call (.ready 3), poll,
    .call (.ready 3)]

/-- The first message is handed over again after its connection was lost. -/
theorem threeMessages_conserved : let a : Proc := ⟨"a", 7000, 0⟩
    let net : Transport := {
      here := a, config := { maxFrameSize := 2 }, network := .isolated 49152 }
    let s := ({ table := { here := a }, net } : Dispatch Transport).run a (threeMessages a)
    keep [.released, .dropped] (sentTo a (threeMessages a)) = [[1]] ++ [[3]] ++ [] ∧
    ∃ xs us vs, s.log = xs ++ .taken 2 [1] :: us ++ .taken 3 [1] :: vs ∧
      ∃ before rest, us = before ++ .lost 2 :: rest ∧ .confirmed 2 ∉ before ∧
        .retired 2 ∉ before := by
  intro a net s
  have hlog : s.log = [.given [1], .called (.started 2), .given [2, 2, 2], .given [3],
      .confirmed 2] ++ .taken 2 [1] :: [.lost 2, .called (.started 3), .confirmed 3] ++
      .taken 3 [1] :: [.confirmed 3, .called (.offered 3 [2, 2, 2] .tooLarge),
        .taken 3 [3]] := by decide
  have hpeer : (s.table.peer a).link.bind (·.inFlight) = some [3] ∧
      (s.table.peer a).outbox = [] := by decide
  have hledger : Ledger.after s.log = ⟨[[1], [2, 2, 2], [3]],
      [([1], .released), ([2, 2, 2], .dropped)], some (3, [3])⟩ := by
    rw [hlog]
    rfl
  have hplace : place ([.given [1], .called (.started 2), .given [2, 2, 2], .given [3],
      .confirmed 2] ++ .taken 2 [1] :: [.lost 2, .called (.started 3), .confirmed 3]) = 0 := rfl
  have hkept : .call (.forget a) ∉ threeMessages a := by simp [threeMessages]
  obtain ⟨-, hkeep, -, hagain⟩ := messages_conserved a a net (threeMessages a) hkept
  change keep ((Ledger.after s.log).settled.map (·.2)) (sentTo a (threeMessages a)) =
    (Ledger.after s.log).released ++ ((s.table.peer a).link.bind (·.inFlight)).toList ++
      (s.table.peer a).outbox at hkeep
  rw [hpeer.1, hpeer.2, hledger] at hkeep
  exact ⟨hkeep, _, _, _, hlog, (hagain _ _ _ _ _ _ _ hlog).2 hplace⟩

end Dispatch

end Multicast
