import Mathlib.Logic.Function.Basic
import Multicast.Proofs.Causal.Members

/-! A group of causal layers, one of each process, and the packets between them. -/
namespace Multicast

/-- A packet on its way. -/
structure Flight where
  source : Proc
  target : Proc
  packet : CausalPacket
  deriving DecidableEq, Repr

structure Group where
  layers : Proc → CausalLayer
  flying : List Flight
  /-- What every process has done, oldest first. -/
  log : List (Proc × CausalEvent)

namespace Group

/-- A process calls its layer, or the network does something with a packet. -/
inductive Action where
  | init (p : Proc) (members : List Proc)
  | view (p : Proc) (members : List Proc)
  | send (p : Proc) (payload : Bytes) (destinations : List Proc)
  | deliver (f : Flight)
  /-- A packet is delivered and is still on its way. -/
  | copy (f : Flight)
  | lose (f : Flight)
  deriving DecidableEq, Repr

/-- What a process asks of its own layer. -/
def Action.own? : Action → Option (Proc × CausalCall)
  | init p members => some (p, .init members)
  | view p members => some (p, .view members)
  | send p payload destinations => some (p, .send payload destinations)
  | _ => none

variable {g g' g₀ : Group} {p q : Proc} {c : CausalCall} {l : CausalLayer} {i : MessageId}
  {e : CausalEvent} {es fs : List CausalEvent} {f : Flight} {o : CausalOutput}
  {ok : Group → Action → Prop} {actions : List Action} {flying : List Flight}

/-- The packets that an output of `p` puts on their way. -/
def posted (p : Proc) (o : CausalOutput) : List Flight :=
  o.sends.map fun s => ⟨p, s.destination, s.packet⟩

def call (g : Group) (p : Proc) (c : CausalCall) : Group :=
  match (g.layers p).call c with
  | .ok (o, l) =>
    { layers := Function.update g.layers p l
      flying := g.flying ++ posted p o
      log := g.log ++ ((g.layers p).events c).map (p, ·) }
  | .error _ => g

def without (g : Group) (f : Flight) : Group := { g with flying := g.flying.erase f }

def handOver (g : Group) (f : Flight) : Group := g.call f.target (.deliver f.source f.packet)

def step (g : Group) : Action → Group
  | .init p members => g.call p (.init members)
  | .view p members => g.call p (.view members)
  | .send p payload destinations => g.call p (.send payload destinations)
  | .deliver f => if f ∈ g.flying then (g.without f).handOver f else g
  | .copy f => if f ∈ g.flying then g.handOver f else g
  | .lose f => g.without f

def run (g : Group) (actions : List Action) : Group := actions.foldl step g

/-- No process has a member list yet. -/
def scattered (window capacity : Proc → Nat) : Group where
  layers p := .fresh p (window p) (capacity p)
  flying := []
  log := []

/-- Every process has started with the same member list. -/
def formed (members : List Proc) (window capacity : Proc → Nat) : Group where
  layers p := (CausalLayer.fresh p (window p) (capacity p)).after (.init members)
  flying := []
  log := []

/-- Three processes: the second passes on to the third what it heard from the first. -/
def relay (a b c : Proc) : List Action :=
  [.send a [] [b, c], .deliver ⟨a, b, .send ⟨a, 0⟩ [b, c] []⟩, .send b [] [c],
    .deliver ⟨a, c, .send ⟨a, 0⟩ [b, c] []⟩, .deliver ⟨c, b, .ack ⟨a, 0⟩⟩,
    .deliver ⟨b, c, .send ⟨b, 0⟩ [c] []⟩]

/-- Nothing has happened in the group but that processes may have taken up member lists. -/
structure Blank (g : Group) : Prop where
  layers : ∀ p, ∃ window capacity initialized members,
    g.layers p = { CausalLayer.fresh p window capacity with initialized, members }
  flying : g.flying = []
  log : g.log = []

theorem layers_formed {members : List Proc} {window capacity : Proc → Nat}
    (h : members.Nodup) : (formed members window capacity).layers p =
      { CausalLayer.fresh p (window p) (capacity p) with initialized := true, members } := by
  simp only [formed, CausalLayer.after, CausalLayer.call, CausalLayer.init, CausalLayer.fresh,
    Proc.firstRepeated?_eq_none.mpr h]
  rfl

theorem blank_scattered {window capacity : Proc → Nat} : (scattered window capacity).Blank :=
  ⟨fun p => ⟨window p, capacity p, false, [], rfl⟩, rfl, rfl⟩

theorem blank_formed {members : List Proc} {window capacity : Proc → Nat}
    (h : members.Nodup) : (formed members window capacity).Blank :=
  ⟨fun p => ⟨window p, capacity p, true, members, layers_formed h⟩, rfl, rfl⟩

/-! ### Events and the packets they post -/

/-- The layer of `p` goes on to `l` in some events. -/
def absorb (g : Group) (p : Proc) (es : List CausalEvent) (l : CausalLayer) : Group where
  layers := Function.update g.layers p l
  flying := g.flying ++ posted p (CausalEvent.outputs es)
  log := g.log ++ es.map (p, ·)

@[simp] theorem absorb_layers_self : (g.absorb p es l).layers p = l := by
  simp [absorb]

theorem absorb_layers_of_ne (h : q ≠ p) : (g.absorb p es l).layers q = g.layers q := by
  simp [absorb, h]

@[simp] theorem mem_absorb_log :
    (q, e) ∈ (g.absorb p es l).log ↔ (q, e) ∈ g.log ∨ (q = p ∧ e ∈ es) := by
  simp [absorb, @eq_comm _ p, and_comm]

theorem mem_posted : f ∈ posted p (CausalEvent.outputs es) ↔
    f.source = p ∧ ∃ e ∈ es, ⟨f.target, f.packet⟩ ∈ e.output.sends := by
  induction es with
  | nil => simp [posted, CausalEvent.outputs]
  | cons e es ih =>
    have hc : posted p (CausalEvent.outputs (e :: es)) =
        posted p e.output ++ posted p (CausalEvent.outputs es) := by
      simp [posted, CausalEvent.outputs]
    have he : f ∈ posted p e.output ↔ f.source = p ∧ ⟨f.target, f.packet⟩ ∈ e.output.sends := by
      obtain ⟨source, target, packet⟩ := f
      simp only [posted, List.mem_map, Flight.mk.injEq]
      constructor
      · rintro ⟨s, hs, rfl, rfl, rfl⟩
        exact ⟨rfl, hs⟩
      · rintro ⟨rfl, hs⟩
        exact ⟨_, hs, rfl, rfl, rfl⟩
    rw [hc, List.mem_append, he, ih]
    simp only [List.mem_cons, exists_eq_or_imp]
    tauto

theorem mem_absorb_flying : f ∈ (g.absorb p es l).flying ↔ f ∈ g.flying ∨
    (f.source = p ∧ ∃ e ∈ es, ⟨f.target, f.packet⟩ ∈ e.output.sends) := by
  rw [← mem_posted]
  exact List.mem_append

/-- Messages are posted by their start. -/
theorem send_posted {destinations : List Proc} {payload : Bytes}
    (h : ⟨q, .send i destinations payload⟩ ∈ e.output.sends) :
    e = .started i ⟨payload, destinations⟩ ∧ q ∈ destinations ∧ q ≠ i.sender := by
  cases e with
  | started id r =>
    simp only [CausalEvent.output, List.mem_map, List.mem_filter, Outgoing.mk.injEq,
      CausalPacket.send.injEq, decide_eq_true_eq] at h
    obtain ⟨_, ⟨hq, hne⟩, rfl, rfl, rfl, rfl⟩ := h
    exact ⟨rfl, hq, hne⟩
  | delivered => simp [CausalEvent.output] at h
  | moved | completed | evicted => simp [CausalEvent.output] at h

/-- Acknowledgements are posted by the delivery of their message. -/
theorem ack_posted : ⟨q, .ack i⟩ ∈ e.output.sends ↔
    ∃ payload informed members, e = .delivered i payload informed members ∧ q ∈ informed := by
  cases e with
  | delivered id payload informed members =>
    simp only [CausalEvent.output, List.mem_map, Outgoing.mk.injEq, CausalPacket.ack.injEq,
      CausalEvent.delivered.injEq]
    constructor
    · rintro ⟨_, hq, rfl, rfl⟩
      exact ⟨_, _, _, ⟨rfl, rfl, rfl, rfl⟩, hq⟩
    · rintro ⟨_, _, _, ⟨rfl, rfl, rfl, rfl⟩, hq⟩
      exact ⟨q, hq, rfl, rfl⟩
  | moved | started | completed | evicted => simp [CausalEvent.output]

/-! ### Micro-steps -/

/-- Why the layer of `p` takes a step, and what is on its way then. The actions taken satisfy
`ok`. -/
inductive Cause (ok : Group → Action → Prop) (g : Group) (p : Proc) :
    Option CausalCall → List Flight → Prop
  | queue : Cause ok g p none g.flying
  | own {a : Action} {c : CausalCall} (allowed : ok g a) (own : a.own? = some (p, c)) :
      Cause ok g p (some c) g.flying
  | deliver {f : Flight} (allowed : ok g (.deliver f)) (flying : f ∈ g.flying)
      (target : f.target = p) :
      Cause ok g p (some (.deliver f.source f.packet)) (g.flying.erase f)
  | copy {f : Flight} (allowed : ok g (.copy f)) (flying : f ∈ g.flying)
      (target : f.target = p) : Cause ok g p (some (.deliver f.source f.packet)) g.flying

/-- A layer takes a step, or a packet is gone. -/
inductive Micro (ok : Group → Action → Prop) (g : Group) : Group → Prop
  | act {p : Proc} {c : Option CausalCall} {flying : List Flight} {es : List CausalEvent}
      {l : CausalLayer} (cause : Cause ok g p c flying) (step : (g.layers p).Step c es l) :
      Micro ok g ({ g with flying }.absorb p es l)
  | refuse {f : Flight} (allowed : ok g (.deliver f)) (flying : f ∈ g.flying)
      (deaf : ¬ (g.layers f.target).Hears f.source) : Micro ok g (g.without f)
  | lose {f : Flight} (allowed : ok g (.lose f)) : Micro ok g (g.without f)

inductive Reach (ok : Group → Action → Prop) (g₀ : Group) : Group → Prop
  | refl : Reach ok g₀ g₀
  | step {g g' : Group} (reach : Reach ok g₀ g) (micro : Micro ok g g') : Reach ok g₀ g'

theorem Cause.flying_subset {c : Option CausalCall} (h : Cause ok g p c flying) :
    flying ⊆ g.flying := by
  cases h with
  | queue | own | copy => exact fun _ hf => hf
  | deliver => exact fun _ hf => List.mem_of_mem_erase hf

/-- A packet stays on its way unless it is the one that is heard. -/
theorem Cause.mem_flying {c : Option CausalCall} (h : Cause ok g p c flying) (hf : f ∈ g.flying) :
    f ∈ flying ∨ (f.target = p ∧ c = some (.deliver f.source f.packet)) := by
  cases h with
  | queue | own | copy => exact Or.inl hf
  | @deliver f' allowed flying target =>
    by_cases he : f = f'
    · subst he
      exact Or.inr ⟨target, rfl⟩
    · exact Or.inl ((List.mem_erase_of_ne he).mpr hf)

/-- What a layer hears was on its way to it. -/
theorem Cause.flying_of_deliver {source : Proc} {packet : CausalPacket}
    (h : Cause ok g p (some (.deliver source packet)) flying) : ⟨source, p, packet⟩ ∈ g.flying := by
  cases h with
  | @own a c allowed own => cases a <;> simp [Action.own?] at own
  | deliver allowed flying target | copy allowed flying target =>
    subst target
    exact flying

/-- A member list is taken up by an action of the process. -/
theorem Cause.allowed_of_list {members : List Proc} {c : Option CausalCall}
    (h : Cause ok g p c flying) (hc : c = some (.init members) ∨ c = some (.view members)) :
    ok g (.init p members) ∨ ok g (.view p members) := by
  cases h with
  | @own a c allowed own =>
    cases a with
    | init q ms =>
      obtain ⟨rfl, rfl⟩ : q = p ∧ .init ms = c := by simpa [Action.own?] using own
      obtain rfl : ms = members := by simpa using hc
      exact Or.inl allowed
    | view q ms =>
      obtain ⟨rfl, rfl⟩ : q = p ∧ .view ms = c := by simpa [Action.own?] using own
      obtain rfl : ms = members := by simpa using hc
      exact Or.inr allowed
    | send q payload destinations =>
      obtain ⟨rfl, rfl⟩ : q = p ∧ .send payload destinations = c := by
        simpa [Action.own?] using own
      simp at hc
    | deliver | copy | lose => simp [Action.own?] at own
  | queue | deliver | copy => simp at hc

theorem absorb_absorb {m : CausalLayer} :
    (g.absorb p es l).absorb p fs m = g.absorb p (es ++ fs) m := by
  simp [absorb, CausalLayer.outputs_append, posted]

theorem reach_drains (h : Reach ok g₀ (g.absorb p es l)) {m : CausalLayer}
    (hd : CausalLayer.Drains l fs m) : Reach ok g₀ (g.absorb p (es ++ fs) m) := by
  induction hd generalizing es with
  | done => simpa using h
  | step hs _ ih =>
    rw [← List.append_assoc]
    apply ih
    rw [← absorb_absorb]
    exact .step h (.act .queue (by simpa using hs))

theorem call_of_ok (h : (g.layers p).call c = .ok (o, l)) :
    g.call p c = g.absorb p ((g.layers p).events c) l := by
  simp only [call, h, absorb, CausalLayer.outputs_events h]

theorem call_of_error {err : CausalError} (h : (g.layers p).call c = .error err) :
    g.call p c = g := by
  simp only [call, h]

/-- A call is made of micro-steps. -/
theorem reach_call (h : Reach ok g₀ g) (hc : Cause ok g p (some c) flying)
    (he : ∀ err, (g.layers p).call c = .error err → Reach ok g₀ { g with flying }) :
    Reach ok g₀ ({ g with flying }.call p c) := by
  cases hr : (g.layers p).call c with
  | error err =>
    rw [call_of_error (g := { g with flying }) hr]
    exact he err hr
  | ok result =>
    obtain ⟨es, m, fs, hs, hd, hev, -⟩ := CausalLayer.call_ok hr
    rw [call_of_ok (g := { g with flying }) hr]
    change Reach ok g₀ ({ g with flying }.absorb p ((g.layers p).events c) result.2)
    rw [hev]
    exact reach_drains (.step h (.act hc hs)) hd

theorem not_hears_of_error {packet : CausalPacket} {err : CausalError}
    (h : l.call (.deliver q packet) = .error err) : ¬ l.Hears q := by
  rintro ⟨hi, hm⟩
  simp only [CausalLayer.call, CausalLayer.deliver, hi, hm] at h
  cases packet <;> cases h

theorem reach_step {a : Action} (h : Reach ok g₀ g) (ha : ok g a) : Reach ok g₀ (g.step a) := by
  cases a with
  | init p members => exact reach_call h (.own ha rfl) fun _ _ => h
  | view p members => exact reach_call h (.own ha rfl) fun _ _ => h
  | send p payload destinations => exact reach_call h (.own ha rfl) fun _ _ => h
  | deliver f =>
    rw [step]
    split
    · rename_i hf
      exact reach_call h (.deliver ha hf rfl) fun _ he =>
        .step h (.refuse ha hf (not_hears_of_error he))
    · exact h
  | copy f =>
    rw [step]
    split
    · rename_i hf
      exact reach_call h (.copy ha hf rfl) fun _ _ => h
    · exact h
  | lose f => exact .step h (.lose ha)

theorem run_append_singleton {a : Action} : g.run (actions ++ [a]) = (g.run actions).step a := by
  simp [run, List.foldl_append]

/-- A run is made of micro-steps. -/
theorem reach_run (h : ∀ cs a, cs ++ [a] <+: actions → ok (g.run cs) a) :
    Reach ok g (g.run actions) := by
  induction actions using List.reverseRecOn with
  | nil => exact .refl
  | append_singleton cs a ih =>
    rw [run_append_singleton]
    refine reach_step (ih fun ds b hb => h ds b (hb.trans (List.prefix_append cs [a]))) ?_
    exact h cs a (List.prefix_refl _)

end Group

end Multicast
