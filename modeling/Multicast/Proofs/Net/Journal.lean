import Mathlib.Data.List.Induction
import Multicast.Net.Transport
import Multicast.Proofs.Net.Asking

/-! A record of when the connections of a transport ask for messages and are given some. -/
namespace Multicast

/-- What is recorded of a connection. -/
inductive Mark where
  /-- It asked for a message. It was in this state then. -/
  | asked (c : Connection)
  /-- It was given a message. -/
  | took (c : ConnectionId)
  /-- It was told to close. -/
  | shut (c : ConnectionId)
  deriving DecidableEq, Repr

namespace Mark
open Connection (Passes)
open TransportEvent (asksOn)

def connection : Mark → ConnectionId
  | asked c => c.id
  | took c | shut c => c

/-- The connections that asked for a message, oldest first. -/
def askers (journal : List Mark) : List ConnectionId :=
  journal.filterMap fun
    | asked c => some c.id
    | _ => none

/-- Whether a connection is asking, given whether it was before. -/
def next (c : ConnectionId) (before : Bool) : Mark → Bool
  | asked conn => before || conn.id = c
  | took d => before && d ≠ c
  | shut _ => before

/-- Whether a connection has asked for a message and has not been given one since. -/
def asking (c : ConnectionId) (journal : List Mark) : Bool := journal.foldl (next c) false

/-- Who asks can be given a message, has not been told to close and has no other question open; who
is given a message has asked for it. -/
inductive Proper : List Mark → Prop
  | nil : Proper []
  | asked {journal : List Mark} {c : Connection} (before : Proper journal) (willing : c.Willing)
      (answered : asking c.id journal = false) (unshut : .shut c.id ∉ journal) :
      Proper (journal ++ [.asked c])
  | took {journal : List Mark} {c : ConnectionId} (before : Proper journal)
      (asks : asking c journal = true) : Proper (journal ++ [.took c])
  | shut {journal : List Mark} {c : ConnectionId} (before : Proper journal) :
      Proper (journal ++ [.shut c])

/-- What is recorded of a stage: a question for each time that it asks. -/
def ofStage (stage : Connection × List TransportEvent) : List Mark :=
  List.replicate (asksOn stage.1.id stage.2) (.asked stage.1)

variable {journal more before mid after : List Mark} {mark : Mark} {c d : ConnectionId}
  {conn conn' : Connection} {events : List TransportEvent}
  {stages : List (Connection × List TransportEvent)}

@[simp] theorem asking_append_singleton :
    asking c (journal ++ [mark]) = next c (asking c journal) mark := by
  simp [asking]

@[simp] theorem askers_append : askers (journal ++ more) = askers journal ++ askers more :=
  List.filterMap_append

theorem asking_of_unmarked (h : ∀ mark ∈ journal, mark.connection ≠ c) :
    asking c journal = false := by
  induction journal using List.reverseRecOn with
  | nil => rfl
  | append_singleton journal mark ih =>
    have hmark := h mark (by simp)
    rw [asking_append_singleton, ih fun m hm => h m (List.mem_append_left _ hm)]
    cases mark <;> simp_all [next, connection]

/-- Marks of one connection do not matter to another. -/
theorem asking_other (h : ∀ mark ∈ more, mark.connection = c) (hd : d ≠ c) :
    asking d (journal ++ more) = asking d journal := by
  induction more using List.reverseRecOn with
  | nil => rw [List.append_nil]
  | append_singleton more mark ih =>
    have hmark := h mark (by simp)
    rw [← List.append_assoc, asking_append_singleton,
      ih fun m hm => h m (List.mem_append_left _ hm)]
    cases mark <;> simp_all [next, connection, Ne.symm hd]

/-- Only a question makes a connection ask. -/
theorem asked_of_asking (h : asking c (journal ++ more) = true) (hj : asking c journal = false) :
    ∃ conn, .asked conn ∈ more ∧ conn.id = c := by
  induction more using List.reverseRecOn with
  | nil => simp [hj] at h
  | append_singleton more mark ih =>
    rw [← List.append_assoc, asking_append_singleton] at h
    by_cases hm : asking c (journal ++ more) = true
    · obtain ⟨conn, hconn, hid⟩ := ih hm
      exact ⟨conn, List.mem_append_left _ hconn, hid⟩
    · cases mark with
      | asked conn => exact ⟨conn, by simp, by simpa [next, hm] using h⟩
      | took | shut => simp [next, hm] at h

theorem Proper.asking_of_took (h : Proper (journal ++ [.took c])) : asking c journal = true := by
  generalize hj : journal ++ [Mark.took c] = whole at h
  cases h with
  | nil => simp at hj
  | asked | shut => simpa using (List.append_inj' hj rfl).2
  | took _ asks =>
    obtain ⟨rfl, hc⟩ := List.append_inj' hj rfl
    obtain rfl : c = _ := by simpa using hc
    exact asks

theorem Proper.of_append (h : Proper (journal ++ more)) : Proper journal := by
  induction more using List.reverseRecOn with
  | nil => rwa [List.append_nil] at h
  | append_singleton more mark ih =>
    rw [← List.append_assoc] at h
    refine ih ?_
    generalize hj : journal ++ more ++ [mark] = whole at h
    cases h with
    | nil => simp at hj
    | asked before | took before | shut before =>
      obtain ⟨rfl, -⟩ := List.append_inj' hj rfl
      exact before

/-- Who asks can be given a message, has no other question open and was not told to close. -/
theorem Proper.of_asked (h : Proper (before ++ .asked conn :: after)) :
    conn.Willing ∧ asking conn.id before = false ∧ .shut conn.id ∉ before := by
  have hsplit : before ++ Mark.asked conn :: after = before ++ [.asked conn] ++ after := by simp
  rw [hsplit] at h
  have hlast := h.of_append
  generalize hj : before ++ [Mark.asked conn] = whole at hlast
  cases hlast with
  | nil => simp at hj
  | took | shut => simpa using (List.append_inj' hj rfl).2
  | asked _ willing answered unshut =>
    obtain ⟨rfl, hconn⟩ := List.append_inj' hj rfl
    obtain rfl : conn = _ := by simpa using hconn
    exact ⟨willing, answered, unshut⟩

/-- Between two messages that a connection is given it asks for one. -/
theorem Proper.separated (h : Proper (before ++ .took c :: mid ++ .took c :: after)) :
    ∃ conn, .asked conn ∈ mid ∧ conn.id = c := by
  have hsplit : before ++ .took c :: mid ++ .took c :: after =
      before ++ [.took c] ++ mid ++ [.took c] ++ after := by simp
  rw [hsplit] at h
  refine asked_of_asking h.of_append.asking_of_took ?_
  simp [next]

/-! ### What is recorded of a connection that is attended to -/

theorem connection_ofStage (hid : conn'.id = c) :
    ∀ mark ∈ ofStage (conn', events), mark.connection = c := by
  intro mark hm
  rw [List.eq_of_mem_replicate hm]
  exact hid

theorem askers_ofStage : askers (ofStage (conn', events)) =
    List.replicate (asksOn conn'.id events) conn'.id := by
  rw [askers, ofStage, List.filterMap_replicate]

/-- A connection is asking as long as it has signalled that it can take a message. -/
structure Follows (journal : List Mark) (conn : Connection) : Prop where
  proper : Proper journal
  asking : asking conn.id journal = conn.readySignalled
  shut : .shut conn.id ∈ journal → conn.closing = true

theorem Follows.attends (h : Follows journal conn) (ha : conn.Attends conn' events) :
    Follows (journal ++ ofStage (conn', events)) conn' := by
  have hasks := ha.asks
  have hbound := Bool.toNat_le conn'.readySignalled
  rw [ofStage, ha.id]
  by_cases hnone : asksOn conn.id events = 0
  · rw [hnone] at hasks ⊢
    rw [List.replicate_zero, List.append_nil]
    refine ⟨h.proper, ?_, ?_⟩
    · rw [ha.id, h.asking]
      cases hs : conn.readySignalled <;> cases hs' : conn'.readySignalled <;> simp_all
    · rw [ha.id, ha.closing]
      exact h.shut
  · have hone : asksOn conn.id events = 1 := by omega
    have hwilling := ha.willing hnone
    have hsignal : conn.readySignalled = false := by
      cases hs : conn.readySignalled with
      | false => rfl
      | true =>
        simp only [hs, Bool.toNat_true] at hasks
        omega
    have hopen : conn.closing = false := ha.closing.symm.trans hwilling.closing
    have hunshut : .shut conn'.id ∉ journal := by
      intro hs
      rw [ha.id] at hs
      simp [h.shut hs] at hopen
    have hanswered : Mark.asking conn'.id journal = false := by rw [ha.id, h.asking, hsignal]
    rw [hone, List.replicate_one]
    refine ⟨.asked h.proper hwilling hanswered hunshut, ?_, ?_⟩
    · rw [asking_append_singleton, next, hanswered]
      rw [hsignal, hone] at hasks
      cases hs : conn'.readySignalled with
      | true => simp
      | false => simp [hs] at hasks
    · intro hs
      rcases List.mem_append.mp hs with hs | hs
      · exact (hunshut hs).elim
      · simp at hs

theorem Follows.passes (h : Follows journal conn) (hp : Passes conn stages conn') :
    Follows (journal ++ stages.flatMap ofStage) conn' := by
  induction hp generalizing journal with
  | done => rwa [List.flatMap_nil, List.append_nil]
  | next attends _ ih =>
    rw [List.flatMap_cons, ← List.append_assoc]
    exact ih (h.attends attends)

theorem connection_of_passes (hp : Passes conn stages conn') :
    ∀ mark ∈ stages.flatMap ofStage, mark.connection = conn.id := by
  induction hp with
  | done => simp
  | next attends _ ih =>
    intro mark hm
    rw [List.flatMap_cons] at hm
    rcases List.mem_append.mp hm with hm | hm
    · exact connection_ofStage attends.id mark hm
    · exact (ih mark hm).trans attends.id

/-- The questions that are recorded are those that are reported. -/
theorem askers_of_passes (hp : Passes conn stages conn') :
    askers (stages.flatMap ofStage) = TransportEvent.askers (stages.flatMap (·.2)) := by
  induction hp with
  | done => rfl
  | @next c c' _ events _ attends _ ih =>
    have hstage : askers (ofStage (c', events)) = TransportEvent.askers events := by
      rw [TransportEvent.askers_named attends.named, ← attends.id, askers_ofStage]
    rw [List.flatMap_cons, List.flatMap_cons, askers_append, TransportEvent.askers_append, hstage,
      ih]

end Mark

end Multicast
