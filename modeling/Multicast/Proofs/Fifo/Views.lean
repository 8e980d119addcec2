import Multicast.Proofs.Fifo.Delivery

/-! The stream from one process to another while member lists come and go that both of them take
up. -/
namespace Multicast

namespace FifoLayer
variable {l l' : FifoLayer} {c : FifoCall} {ms : List Proc} {p : Proc}

/-- A layer keeps numbers for members only. -/
structure Tidy (l : FifoLayer) : Prop where
  unused : l.initialized = false → l.members = []
  sent : ∀ p, p ∉ l.members → l.sent.get? p = none
  sources : ∀ p, p ∉ l.members → l.sources.get? p = none

/-- What a new member list does: those who stay go on, the others start at zero. -/
structure Moves (l : FifoLayer) (ms : List Proc) (l' : FifoLayer) : Prop where
  initialized : l'.initialized = true
  members : l'.members = ms
  sent : ∀ p, l'.sent.get? p = if p ∈ ms then some ((l.sent.get? p).getD 0) else none
  sources : ∀ p, l'.sources.get? p = if p ∈ ms then some ((l.sources.get? p).getD {}) else none

theorem moves_init (hl : l.Tidy) (hnew : l.initialized = false) (hn : ms.Nodup) :
    l.Moves ms (l.after (.init ms)) := by
  have hempty : ∀ p, p ∉ l.members := by simp [hl.unused hnew]
  rw [after_init hnew hn]
  refine ⟨rfl, rfl, fun p => ?_, fun p => ?_⟩
  · rw [Table.get?_const, hl.sent p (hempty p)]
    rfl
  · rw [Table.get?_const, hl.sources p (hempty p)]
    rfl

/-- Numbers of members, with those of departed members dropped and those of new ones added. -/
theorem get?_moved {β : Type} {t : Table Proc β} {v : β} (old : List Proc)
    (hout : p ∉ old → t.get? p = none) :
    Table.get? (ms.foldl (fun t p => Table.putNew t p v)
      (t.filter fun e => e.1 ∈ ms || e.1 ∉ old)) p =
      if p ∈ ms then some ((t.get? p).getD v) else none := by
  rw [Table.get?_foldl_putNew, Table.get?_filter fun p => p ∈ ms || p ∉ old]
  by_cases hp : p ∈ ms
  · simp [hp]
  · by_cases hold : p ∈ old
    · simp [hp, hold]
    · simp [hp, hold, hout hold]

theorem moves_view (hl : l.Tidy) (hn : ms.Nodup) : l.Moves ms (l.after (.view ms)) := by
  by_cases hinitialized : l.initialized = true
  · have hview : l.after (.view ms) = { l with
        members := ms
        sent := ms.foldl (fun t p => t.putNew p 0)
          (l.sent.filter fun e => e.1 ∈ ms || e.1 ∉ l.members)
        sources := ms.foldl (fun t p => t.putNew p {})
          (l.sources.filter fun e => e.1 ∈ ms || e.1 ∉ l.members) } := by
      simp only [after, call, applyView, hinitialized, Proc.firstRepeated?_eq_none.mpr hn,
        Bool.not_true, Bool.false_eq_true, if_false]
    rw [hview]
    exact ⟨hinitialized, rfl, fun p => get?_moved _ (hl.sent p),
      fun p => get?_moved _ (hl.sources p)⟩
  · have hnew : l.initialized = false := by simpa using hinitialized
    have hinit : l.after (.view ms) = l.after (.init ms) := by
      simp only [after, call, applyView, hnew, Bool.not_false, if_true]
    rw [hinit]
    exact moves_init hl hnew hn

theorem Moves.tidy (h : l.Moves ms l') : l'.Tidy where
  unused hnew := by
    rw [h.initialized] at hnew
    cases hnew
  sent p hp := by
    rw [h.members] at hp
    rw [h.sent, if_neg hp]
  sources p hp := by
    rw [h.members] at hp
    rw [h.sources, if_neg hp]

theorem source_after_of_none (hc : c.isTraffic = true) (hp : l.sources.get? p = none) :
    (l.after c).sources.get? p = none ∧ (l.answer c).elim [] (·.deliveredFrom p) = [] := by
  rcases c.packetsFrom_cases p with hnone | ⟨packet, rfl, -⟩
  · obtain ⟨hsource, hsilent⟩ := source_after (l := l) hc hnone
    exact ⟨hsource.trans hp, hsilent⟩
  · cases h : l.call (.deliver p packet) with
    | error e =>
      obtain ⟨hafter, hanswer⟩ := after_of_error h
      rw [hafter, hanswer]
      exact ⟨hp, rfl⟩
    | ok result => exact (deliver_unknown hp h).elim

theorem Tidy.after (hl : l.Tidy) (hc : c.isTraffic = true) : (l.after c).Tidy := by
  obtain ⟨hinitialized, -, hmembers⟩ := traffic_after (l := l) hc
  refine ⟨?_, fun p hp => ?_, fun p hp => ?_⟩
  · rw [hinitialized, hmembers]
    exact hl.unused
  · rw [hmembers] at hp
    rw [(sent_after hc).1, hl.sent p hp]
    rfl
  · rw [hmembers] at hp
    exact (source_after_of_none hc (hl.sources p hp)).1

end FifoLayer

namespace FifoGroup
open FifoRecord

variable {g : FifoGroup} {p a b : Proc} {c : FifoCall} {base : Nat} {start : Option Nat}
  {actions : List (Proc × FifoCall)} {limit : Proc → Option Nat}

/-- A member list, and what happens while it is in force. -/
structure Period where
  members : List Proc
  traffic : List (Proc × FifoCall)

/-- A period in the course of a run, from the moment when the list has been taken up. -/
structure Spell extends Period where
  start : FifoGroup

/-- Both processes take up a list, and a new log begins. -/
def takeUp (g : FifoGroup) (a b : Proc) (c : FifoCall) : FifoGroup where
  layers p := if p = a ∨ p = b then (g.layers p).after c else g.layers p
  log := []

namespace Spell

def finish (s : Spell) : FifoGroup := s.start.run s.traffic

/-- The payloads that `a` sends to `b`. -/
def sent (a b : Proc) (s : Spell) : List Bytes := payloads s.finish.log a b

/-- The payloads of `a` that `b` delivers. -/
def received (a b : Proc) (s : Spell) : List Bytes := delivered s.finish.log a b

/-- No packet from `a` to `b` is on its way when the period ends. -/
def Separate (a b : Proc) (s : Spell) : Prop :=
  s.members.Nodup ∧ Carried a b s.start s.traffic ∧
    (a ∈ s.members → packets s.finish.log a b ⊆ accepted s.finish.log a b)

instance {s : Spell} : Decidable (s.Separate a b) := inferInstanceAs (Decidable (_ ∧ _ ∧ _))

/-- What `a` sends to `b` is delivered, once and in order, if both are members. -/
def Aligned (a b : Proc) (s : Spell) : Prop :=
  s.received a b = if a ∈ s.members ∧ b ∈ s.members then s.sent a b else []

instance {s : Spell} : Decidable (s.Aligned a b) := inferInstanceAs (Decidable (_ = _))

end Spell

/-- The periods that follow one another when `a` and `b` take up the first list as `change`
says. -/
def spells (a b : Proc) (change : List Proc → FifoCall) (g : FifoGroup) : List Period → List Spell
  | [] => []
  | x :: xs =>
    let s : Spell := ⟨x, g.takeUp a b (change x.members)⟩
    s :: spells a b .view s.finish xs

/-- The periods since `p` was last taken in, newest first, of those in `past`. -/
def since (p : Proc) (past : List Spell) : List Spell := past.takeWhile (p ∈ ·.members)

/-- Whenever `a` and `b` come together, nothing has been sent from the one to the other since one of
them was taken in. -/
def Rested (a b : Proc) (past : List Spell) : List Spell → Prop
  | [] => True
  | s :: rest =>
    (a ∈ s.members → b ∈ s.members → since a past = [] ∨ since b past = [] →
      ∀ t ∈ since a past ++ since b past, t.sent a b = []) ∧ Rested a b (s :: past) rest

instance decidableRested : (past rest : List Spell) → Decidable (Rested a b past rest)
  | _, [] => isTrue trivial
  | past, s :: rest =>
    have := decidableRested (s :: past) rest
    inferInstanceAs (Decidable ((a ∈ s.members → b ∈ s.members →
      since a past = [] ∨ since b past = [] →
        ∀ t ∈ since a past ++ since b past, t.sent a b = []) ∧ Rested a b (s :: past) rest))

/-- How many payloads there are in some periods. -/
def total (f : Spell → List Bytes) (ss : List Spell) : Nat := (ss.flatMap f).length

theorem total_eq_zero {f : Spell → List Bytes} {ss : List Spell} (h : ∀ s ∈ ss, f s = []) :
    total f ss = 0 :=
  List.length_eq_zero_iff.mpr (List.flatMap_eq_nil_iff.mpr h)

theorem total_cons {f : Spell → List Bytes} {s : Spell} {ss : List Spell} :
    total f (s :: ss) = (f s).length + total f ss :=
  List.length_append

theorem since_cons {past : List Spell} {s : Spell} :
    since p (s :: past) = if p ∈ s.members then s :: since p past else [] := by
  by_cases h : p ∈ s.members <;> simp [since, h]

/-! ### While a list is in force -/

theorem tidy_run (hcarried : g.Carried a b actions) (hp : p = a ∨ p = b)
    (h : (g.layers p).Tidy) : ((g.run actions).layers p).Tidy := by
  induction actions generalizing g with
  | nil => exact h
  | cons x actions ih =>
    obtain ⟨q, c⟩ := x
    obtain ⟨htraffic, -, hrest⟩ := hcarried
    refine ih hrest ?_
    by_cases hq : p = q
    · subst hq
      rw [step_layers_self]
      exact h.after (htraffic hp)
    · rwa [step_layers_of_ne hq]

/-- Nothing is delivered from a process that is no source. -/
theorem ignored_run (hcarried : g.Carried a b actions)
    (hs : (g.layers b).sources.get? a = none) (hd : delivered g.log a b = []) :
    ((g.run actions).layers b).sources.get? a = none ∧ delivered (g.run actions).log a b = [] := by
  induction actions generalizing g with
  | nil => exact ⟨hs, hd⟩
  | cons x actions ih =>
    obtain ⟨p, c⟩ := x
    obtain ⟨htraffic, -, hrest⟩ := hcarried
    by_cases hp : p = b
    · subst hp
      obtain ⟨hsource, hsilent⟩ := FifoLayer.source_after_of_none (htraffic (Or.inr rfl)) hs
      refine ih hrest ?_ ?_
      · rwa [step_layers_self]
      · rw [delivered_step, if_pos rfl, hd, hsilent]
        rfl
    · refine ih hrest ?_ ?_
      · rwa [step_layers_of_ne (Ne.symm hp)]
      · rw [delivered_step, if_neg hp, hd]
        rfl

/-! ### From list to list -/

/-- What the layers of `a` and `b` keep at the end of a period. -/
structure Standing (a b : Proc) (past : List Spell) (g : FifoGroup) : Prop where
  tidy : ∀ p, p = a ∨ p = b → (g.layers p).Tidy
  number : ((g.layers a).sent.get? b).getD 0 = total (·.sent a b) (since b past)
  source : ((g.layers b).sources.get? a).getD {} = ⟨total (·.received a b) (since a past), []⟩
  aligned : ∀ t ∈ past, t.Aligned a b
  level : since a past ≠ [] → since b past ≠ [] →
    total (·.sent a b) (since b past) = total (·.received a b) (since a past)

theorem standing_scattered : Standing a b [] (scattered limit) where
  tidy p _ := ⟨fun _ => rfl, fun _ _ => rfl, fun _ _ => rfl⟩
  number := rfl
  source := rfl
  aligned := by simp
  level h := (h rfl).elim

/-- Under the next list both count from the same number if neither has come in alone. -/
theorem Standing.together {past : List Spell} (h : Standing a b past g)
    (hrested : since a past = [] ∨ since b past = [] →
      ∀ t ∈ since a past ++ since b past, t.sent a b = []) :
    total (·.sent a b) (since b past) = total (·.received a b) (since a past) := by
  by_cases halone : since a past = [] ∨ since b past = []
  · have hnone := hrested halone
    have hsent : total (·.sent a b) (since b past) = 0 :=
      total_eq_zero fun t ht => hnone t (List.mem_append_right _ ht)
    have hreceived : total (·.received a b) (since a past) = 0 := by
      refine total_eq_zero fun t ht => ?_
      have haligned := h.aligned t ((List.takeWhile_sublist _).subset ht)
      rw [Spell.Aligned, hnone t (List.mem_append_left _ ht), ite_self] at haligned
      exact haligned
    rw [hsent, hreceived]
  · rw [not_or] at halone
    exact h.level halone.1 halone.2

section period
variable {past : List Spell} {x : Period} (h : Standing a b past g)
  (hmoves : ∀ p, p = a ∨ p = b → (g.layers p).Moves x.members ((g.layers p).after c))
include h hmoves

theorem numbered_takeUp : (g.takeUp a b c).Numbered a b
    (if b ∈ x.members then some (total (·.sent a b) (since b past)) else none) := by
  refine ⟨?_, rfl, fun _ => rfl⟩
  have hlayer : (g.takeUp a b c).layers a = (g.layers a).after c := if_pos (Or.inl rfl)
  rw [hlayer, (hmoves a (Or.inl rfl)).sent, h.number]
  split <;> rfl

variable (hseparate : Spell.Separate a b ⟨x, g.takeUp a b c⟩)
include hseparate

/-- While `a` is a member, `b` delivers all that it sends. -/
theorem received_of_member (ha : a ∈ x.members) (hsame : b ∈ x.members →
      total (·.sent a b) (since b past) = total (·.received a b) (since a past)) :
    Spell.received a b ⟨x, g.takeUp a b c⟩ = Spell.sent a b ⟨x, g.takeUp a b c⟩ ∧
      ((Spell.finish ⟨x, g.takeUp a b c⟩).layers b).sources.get? a =
        some ⟨total (·.received a b) (since a past) +
          (Spell.sent a b ⟨x, g.takeUp a b c⟩).length, []⟩ := by
  have hlayer : (g.takeUp a b c).layers b = (g.layers b).after c := if_pos (Or.inr rfl)
  have hmove := hmoves b (Or.inr rfl)
  have hfollowed : (g.takeUp a b c).Followed a b (total (·.received a b) (since a past)) := by
    refine .fresh rfl ?_ ?_
    · rw [hlayer, hmove.initialized]
    · rw [hlayer, hmove.sources, if_pos ha, h.source]
  have hstart : ∀ n, (if b ∈ x.members then some (total (·.sent a b) (since b past)) else none) =
      some n → n = total (·.received a b) (since a past) := by
    intro n hn
    split at hn
    · rename_i hb
      cases hn
      exact hsame hb
    · cases hn
  have hnumbered := numbered_takeUp h hmoves
  exact (followed_run hseparate.2.1 hnumbered hstart hfollowed).complete
    (numbered_run hseparate.2.1 hnumbered) hstart (hseparate.2.2 ha)

omit h in
/-- While `a` is no member, `b` delivers nothing of it. -/
theorem received_of_not_member (ha : a ∉ x.members) :
    Spell.received a b ⟨x, g.takeUp a b c⟩ = [] ∧
      ((Spell.finish ⟨x, g.takeUp a b c⟩).layers b).sources.get? a = none := by
  have hlayer : (g.takeUp a b c).layers b = (g.layers b).after c := if_pos (Or.inr rfl)
  have hnone : ((g.takeUp a b c).layers b).sources.get? a = none := by
    rw [hlayer, (hmoves b (Or.inr rfl)).sources, if_neg ha]
  exact (ignored_run hseparate.2.1 hnone rfl).symm

theorem aligned_period (hsame : a ∈ x.members → b ∈ x.members →
      total (·.sent a b) (since b past) = total (·.received a b) (since a past)) :
    Spell.Aligned a b ⟨x, g.takeUp a b c⟩ := by
  rw [Spell.Aligned]
  by_cases ha : a ∈ x.members
  · rw [(received_of_member h hmoves hseparate ha (hsame ha)).1]
    by_cases hb : b ∈ x.members
    · rw [if_pos ⟨ha, hb⟩]
    · have hnumbered := numbered_run hseparate.2.1 (numbered_takeUp h hmoves)
      rw [if_neg fun hab => hb hab.2]
      exact hnumbered.silent (if_neg hb)
  · rw [(received_of_not_member hmoves hseparate ha).1, if_neg fun hab => ha hab.1]

theorem standing_period (hrested : a ∈ x.members → b ∈ x.members →
      since a past = [] ∨ since b past = [] →
        ∀ t ∈ since a past ++ since b past, t.sent a b = []) :
    Standing a b (⟨x, g.takeUp a b c⟩ :: past) (Spell.finish ⟨x, g.takeUp a b c⟩) := by
  have hnumbered := numbered_run hseparate.2.1 (numbered_takeUp h hmoves)
  have hsame : a ∈ x.members → b ∈ x.members →
      total (·.sent a b) (since b past) = total (·.received a b) (since a past) :=
    fun ha hb => h.together (hrested ha hb)
  have htidy : ∀ p, p = a ∨ p = b → ((Spell.finish ⟨x, g.takeUp a b c⟩).layers p).Tidy := by
    intro p hp
    refine tidy_run hseparate.2.1 hp ?_
    have hlayer : (g.takeUp a b c).layers p = (g.layers p).after c := if_pos hp
    rw [hlayer]
    exact (hmoves p hp).tidy
  refine ⟨htidy, ?_, ?_, ?_, ?_⟩
  · rw [since_cons]
    refine (congrArg (·.getD 0) hnumbered.number).trans ?_
    by_cases hb : b ∈ x.members
    · rw [if_pos hb, if_pos hb, total_cons, Nat.add_comm]
      rfl
    · rw [if_neg hb, if_neg hb]
      rfl
  · rw [since_cons]
    by_cases ha : a ∈ x.members
    · obtain ⟨hreceived, hsource⟩ := received_of_member h hmoves hseparate ha (hsame ha)
      rw [hsource, if_pos ha, total_cons, hreceived, Nat.add_comm]
      rfl
    · rw [(received_of_not_member hmoves hseparate ha).2, if_neg ha]
      rfl
  · intro t ht
    rcases List.mem_cons.mp ht with rfl | ht
    · exact aligned_period h hmoves hseparate hsame
    · exact h.aligned t ht
  · rw [since_cons, since_cons]
    intro ha hb
    have ha : a ∈ x.members := by
      by_contra hn
      exact ha (if_neg hn)
    have hb : b ∈ x.members := by
      by_contra hn
      exact hb (if_neg hn)
    rw [if_pos hb, if_pos ha, total_cons, total_cons, hsame ha hb,
      (received_of_member h hmoves hseparate ha (hsame ha)).1]

end period

theorem aligned_spells {change : List Proc → FifoCall} {past : List Spell} {xs : List Period}
    (h : Standing a b past g)
    (hmoves : ∀ p, p = a ∨ p = b → ∀ ms, ms.Nodup →
      (g.layers p).Moves ms ((g.layers p).after (change ms)))
    (hseparate : ∀ s ∈ spells a b change g xs, s.Separate a b)
    (hrested : Rested a b past (spells a b change g xs)) :
    ∀ s ∈ spells a b change g xs, s.Aligned a b := by
  induction xs generalizing g past change with
  | nil => simp [spells]
  | cons x xs ih =>
    have hfirst := hseparate _ List.mem_cons_self
    have hstanding := standing_period h (fun p hp => hmoves p hp x.members hfirst.1) hfirst
      hrested.1
    intro s hs
    rcases List.mem_cons.mp hs with rfl | hs
    · exact hstanding.aligned _ List.mem_cons_self
    · exact ih hstanding (fun p hp ms hn => FifoLayer.moves_view (hstanding.tidy p hp) hn)
        (fun t ht => hseparate t (List.mem_cons_of_mem _ ht)) hrested.2 s hs

/-- While lists come and go and no packet crosses a change, `b` delivers what `a` sends it, once and
in order, whenever both are members; provided that one of them only comes in, while the other stays
on, before `a` has sent anything to `b` in the meantime. -/
theorem streams_aligned (a b : Proc) (limit : Proc → Option Nat) (periods : List Period)
    (hseparate : ∀ s ∈ spells a b .init (scattered limit) periods, s.Separate a b)
    (hrested : Rested a b [] (spells a b .init (scattered limit) periods)) :
    ∀ s ∈ spells a b .init (scattered limit) periods, s.Aligned a b := by
  refine aligned_spells standing_scattered ?_ hseparate hrested
  intro p hp ms hn
  exact FifoLayer.moves_init (standing_scattered.tidy p hp) rfl hn

/-- Both processes leave and come back together. -/
def recess (a b : Proc) : List Period :=
  [⟨[a, b], [(a, .send [0] [b]), (b, .deliver a ⟨0, [0]⟩)]⟩, ⟨[], []⟩,
    ⟨[a, b], [(a, .send [1] [b]), (b, .deliver a ⟨0, [1]⟩)]⟩]

theorem recess_aligned : let a : Proc := ⟨"a", 1, 0⟩
    let b : Proc := ⟨"b", 1, 0⟩
    ∀ s ∈ spells a b .init (scattered fun _ => none) (recess a b), s.Aligned a b := by
  intro a b
  exact streams_aligned a b (fun _ => none) (recess a b) (by decide) (by decide)

/-- The second process leaves and comes back after the first has sent it something. -/
def absence (a b : Proc) : List Period :=
  [⟨[a, b], [(a, .send [0] [b]), (b, .deliver a ⟨0, [0]⟩)]⟩, ⟨[a], []⟩,
    ⟨[a, b], [(a, .send [1] [b]), (b, .deliver a ⟨0, [1]⟩)]⟩]

/-- A process that comes back takes the first packet for one that it has delivered before. -/
theorem streams_misaligned : ¬ ∀ (a b : Proc) (limit : Proc → Option Nat) (periods : List Period),
    (∀ s ∈ spells a b .init (scattered limit) periods, s.Separate a b) →
    ∀ s ∈ spells a b .init (scattered limit) periods, s.Aligned a b := by
  intro h
  let a : Proc := ⟨"a", 1, 0⟩
  let b : Proc := ⟨"b", 1, 0⟩
  have hall := h a b (fun _ => none) (absence a b) (by decide)
  exact absurd hall (by decide)

end FifoGroup

end Multicast
