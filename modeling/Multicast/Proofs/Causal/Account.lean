import Multicast.Proofs.Causal.Calls
import Multicast.Proofs.Causal.Ledger
import Multicast.Proofs.Causal.Recall

/-! What becomes of the messages that the processes of a group hand to their layers. -/
namespace Multicast

namespace History
variable {h k : History} {p q : Proc} {i : MessageId} {e : CausalEvent} {es : List CausalEvent}

/-- The payloads with which `p` has delivered `i`. -/
def deliveries (h : History) (p : Proc) (i : MessageId) : List Bytes :=
  CausalEvent.deliveries i (h.part p)

theorem deliveries_eq_nil : h.deliveries p i = [] ↔ ¬ HasDelivered h p i := by
  simp only [deliveries, CausalEvent.deliveries_eq_nil, mem_part, HasDelivered, not_exists, not_and]

end History

namespace Group
open History
open CausalEvent (requests)

variable {g g' g₀ : Group} {p q d : Proc} {c : Option CausalCall} {l : CausalLayer}
  {i : MessageId} {r : CausalRequest} {e : CausalEvent} {es : List CausalEvent}
  {flying : List Flight} {ok : Group → Action → Prop} {a : Action} {actions : List Action}

/-- The message that the layer of `p` accepts in an action. -/
def accepts (g : Group) (p : Proc) (a : Action) : List CausalRequest :=
  match a.own? with
  | some (q, c) => if q = p && ((g.layers p).call c).isOk then c.requests else []
  | none => []

/-- The messages that the layer of `p` accepts in some actions, oldest first. -/
def accepted (g : Group) (p : Proc) : List Action → List CausalRequest
  | [] => []
  | a :: actions => g.accepts p a ++ (g.step a).accepted p actions

/-! ### Acceptance -/

/-- What the layer of `p` has started or holds in its queue. -/
def taken (g : Group) (p : Proc) : List CausalRequest :=
  requests (part g.log p) ++ (g.layers p).queue

theorem taken_call {c : CausalCall} (hp : ∀ q, (g.layers q).Prompt) :
    (g.call q c).taken p =
      g.taken p ++ if q = p && ((g.layers p).call c).isOk then c.requests else [] := by
  cases h : (g.layers q).call c with
  | error err =>
    rw [call_of_error h]
    by_cases hq : q = p
    · subst hq
      simp [h, Except.isOk, Except.toBool]
    · simp [hq]
  | ok result =>
    obtain ⟨o, l⟩ := result
    rw [call_of_ok h, taken, part_absorb, CausalEvent.requests_append]
    by_cases hq : q = p
    · subst hq
      rw [absorb_layers_self, List.append_assoc, if_pos rfl, CausalLayer.call_queued h (hp q),
        ← List.append_assoc]
      simp [h, taken, Except.isOk, Except.toBool]
    · rw [absorb_layers_of_ne (Ne.symm hq), if_neg (Ne.symm hq)]
      simp [hq, taken, requests]

theorem taken_handOver {f : Flight} (hp : ∀ q, (g.layers q).Prompt) :
    (g.handOver f).taken p = g.taken p := by
  rw [handOver, taken_call hp]
  simp [CausalCall.requests]

theorem taken_step (hp : ∀ q, (g.layers q).Prompt) :
    (g.step a).taken p = g.taken p ++ g.accepts p a := by
  have hnone : g.taken p = g.taken p ++ [] := (List.append_nil _).symm
  cases a with
  | init q members => exact taken_call hp
  | view q members => exact taken_call hp
  | send q payload destinations => exact taken_call hp
  | deliver f =>
    refine Eq.trans ?_ hnone
    rw [step]
    split
    · exact taken_handOver (g := g.without f) hp
    · rfl
  | copy f =>
    refine Eq.trans ?_ hnone
    rw [step]
    split
    · exact taken_handOver hp
    · rfl
  | lose f => exact hnone

theorem prompt_layers_call {c : CausalCall} (hp : ∀ q, (g.layers q).Prompt) :
    ∀ q, ((g.call p c).layers q).Prompt := by
  intro q
  cases h : (g.layers p).call c with
  | error err => rw [call_of_error h]; exact hp q
  | ok result =>
    rw [call_of_ok h]
    by_cases hq : q = p
    · subst hq
      rw [absorb_layers_self]
      exact CausalLayer.prompt_call (hp q) h
    · rw [absorb_layers_of_ne hq]
      exact hp q

theorem prompt_step (hp : ∀ q, (g.layers q).Prompt) : ∀ q, ((g.step a).layers q).Prompt := by
  cases a with
  | init q members => exact prompt_layers_call hp
  | view q members => exact prompt_layers_call hp
  | send q payload destinations => exact prompt_layers_call hp
  | deliver f =>
    rw [step]
    split
    · exact prompt_layers_call (g := g.without f) hp
    · exact hp
  | copy f =>
    rw [step]
    split
    · exact prompt_layers_call hp
    · exact hp
  | lose f => exact hp

/-- What a layer accepts, it starts or keeps in its queue, in the order of acceptance. -/
theorem taken_run (hp : ∀ q, (g.layers q).Prompt) :
    (g.run actions).taken p = g.taken p ++ g.accepted p actions ∧
      ∀ q, ((g.run actions).layers q).Prompt := by
  induction actions generalizing g with
  | nil => exact ⟨(List.append_nil _).symm, hp⟩
  | cons a actions ih =>
    obtain ⟨htaken, hprompt⟩ := ih (g := g.step a) (prompt_step hp)
    refine ⟨?_, hprompt⟩
    rw [taken_step hp, List.append_assoc] at htaken
    exact htaken

/-! ### Start and completion -/

/-- No process is sent its own message. -/
def Abroad (g : Group) : Prop :=
  ∀ f ∈ g.flying, ∀ i destinations payload, f.packet = .send i destinations payload →
    f.target ≠ i.sender

theorem abroad_act (hg : g.Abroad) (hc : Cause ok g p c flying) :
    ({ g with flying }.absorb p es l).Abroad := by
  intro f hf i destinations payload hp
  rcases mem_absorb_flying.mp hf with hf | ⟨-, e, -, hsend⟩
  · exact hg f (hc.flying_subset hf) i destinations payload hp
  · rw [hp] at hsend
    exact (send_posted hsend).2.2

theorem abroad_reach (h : Reach ok g₀ g) (hb : g₀.Blank) : g.Abroad := by
  induction h with
  | refl => simp [Abroad, hb.flying]
  | step _ micro ih =>
    cases micro with
    | act cause step => exact abroad_act ih cause
    | refuse | lose => exact fun f hf => ih f (List.mem_of_mem_erase hf)

/-- The layer of `p` numbers what it starts, and completes what is no longer pending. -/
structure Counted (g : Group) (p : Proc) : Prop where
  length : (requests (part g.log p)).length = (g.layers p).nextSequence
  numbered : ∀ k r, (requests (part g.log p))[k]? = some r → Started g.log ⟨p, k⟩ r
  completed : ∀ k, (g.layers p).holds ⟨p, k⟩ + (part g.log p).count (.completed ⟨p, k⟩) =
    (g.layers p).issued ⟨p, k⟩

theorem not_heard_own (ha : g.Abroad) (hc : Cause ok g p c flying) (hi : i.sender = p)
    {source : Proc} {destinations : List Proc} {payload : Bytes} :
    c ≠ some (.deliver source (.send i destinations payload)) := by
  rintro rfl
  exact ha _ hc.flying_of_deliver i destinations payload rfl hi.symm

/-- What `p` has done after some events. -/
theorem part_act : part ({ g with flying }.absorb p es l).log p = part g.log p ++ es := by
  rw [part_absorb, if_pos rfl]

theorem counted_act (hg : g.Sound) (ha : g.Abroad) (hn : g.Counted p)
    (hs : (g.layers p).Step c es l) (hc : Cause ok g p c flying) :
    ({ g with flying }.absorb p es l).Counted p where
  length := by
    rw [part_act, CausalEvent.requests_append, List.length_append, hn.length, absorb_layers_self]
    rcases CausalLayer.step_requests hs with ⟨hes, hnext⟩ | ⟨r, hes, -, hnext⟩
    · rw [hes, hnext]
      rfl
    · rw [hes, hnext]
      rfl
  numbered k r hk := by
    have hsub : g.log ⊆ ({ g with flying }.absorb p es l).log := log_subset_absorb (g := g) (l := l)
    rw [part_act, CausalEvent.requests_append, List.getElem?_append] at hk
    split at hk
    · exact (hn.numbered k r hk).mono hsub
    · rename_i hlt
      rcases CausalLayer.step_requests hs with ⟨hes, -⟩ | ⟨s, hes, hmem, -⟩
      · simp [hes] at hk
      · rw [hes, hn.length, List.getElem?_singleton] at hk
        rw [hn.length] at hlt
        obtain ⟨rfl, rfl⟩ : k = (g.layers p).nextSequence ∧ s = r := by
          split at hk
          · exact ⟨by omega, by simpa using hk⟩
          · cases hk
        have hid : (g.layers p).nextId = ⟨p, (g.layers p).nextSequence⟩ := by
          rw [CausalLayer.nextId, hg.here]
        rw [hid] at hmem
        exact mem_absorb_log.mpr (Or.inr ⟨rfl, hmem⟩)
  completed k := by
    have hholds := CausalLayer.step_holds (i := ⟨p, k⟩) hs (hg.here p).symm
      fun _ _ _ => not_heard_own ha hc rfl
    have hbefore := hn.completed k
    rw [part_act, List.count_append, absorb_layers_self]
    omega

theorem counted_reach (h : Reach ok g₀ g) (hb : g₀.Blank) : g.Counted p := by
  induction h with
  | refl =>
    obtain ⟨w, k, b, ms, hl⟩ := hb.layers p
    constructor
    · rw [hl, hb.log]
      rfl
    · simp [hb.log, part, requests]
    · intro k
      rw [hl, hb.log]
      rfl
  | @step g g' reach micro ih =>
    cases micro with
    | @act q c flying es l cause step =>
      by_cases hp : p = q
      · subst hp
        exact counted_act (sound_reach reach (sound_blank hb)) (abroad_reach reach hb) ih step cause
      · have hpart : part ({ g with flying }.absorb q es l).log p = part g.log p := by
          rw [part_absorb, if_neg hp, List.append_nil]
        refine ⟨?_, ?_, ?_⟩
        · rw [hpart, absorb_layers_of_ne hp]
          exact ih.length
        · rw [hpart]
          exact fun k r hk => (ih.numbered k r hk).mono (log_subset_absorb (g := g) (l := l))
        · rw [hpart, absorb_layers_of_ne hp]
          exact ih.completed
    | refuse | lose => exact ⟨ih.length, ih.numbered, ih.completed⟩

/-! ### Delivery -/

/-- A process delivers a message at most once, with the payload it was started with. -/
def Unrepeated (g : Group) : Prop :=
  ∀ p i, deliveries g.log p i = [] ∨
    ∃ r, Started g.log i r ∧ deliveries g.log p i = [r.payload]

theorem deliveries_absorb : deliveries (g.absorb p es l).log q i =
    deliveries g.log q i ++ if q = p then CausalEvent.deliveries i es else [] := by
  rw [deliveries, part_absorb, CausalEvent.deliveries_append, deliveries]
  split <;> rfl

/-- A message that is delivered anew was not delivered before, and brings its own payload. -/
theorem fresh_delivery (hg : g.Sound) (hr : Recalls g.log p (g.layers p))
    (hm : ∀ i r, Started g.log i r → i.sender ∈ (g.layers p).members)
    (hs : (g.layers p).Step c es l) (hc : Cause ok g p c flying) {payload : Bytes}
    {informed ms : List Proc} (he : .delivered i payload informed ms ∈ es) :
    ¬ HasDelivered g.log p i ∧ ∃ r, Started (g.absorb p es l).log i r ∧ r.payload = payload := by
  obtain ⟨-, ⟨r, hes, rfl, -⟩ | ⟨source, ds, d, hcall, -, hfresh, -⟩⟩ :=
    CausalLayer.step_delivered hs he
  · have hstart : .started (g.layers p).nextId r ∈ es := by
      rw [hes]
      exact CausalLayer.mem_startEvents.mpr (Or.inl rfl)
    constructor
    · intro hd
      obtain ⟨s, hs'⟩ := started_of_known hg (List.prefix_refl _) hd.known
      exact not_started_before hg hs hstart hs'
    · have hsender : (g.layers p).nextId.sender = p := hg.here p
      refine ⟨r, mem_absorb_log.mpr (Or.inr ⟨hsender, hstart⟩), ?_⟩
      rw [hes, CausalLayer.mem_startEvents] at he
      simp only [reduceCtorEq, CausalEvent.delivered.injEq, false_or, and_false, or_false] at he
      exact he.2.2.1.symm
  · obtain ⟨-, -, hstarted⟩ := started_of_heard hg hc hcall
    constructor
    · intro hd
      have hcontains := hr.complete i hd (hm i _ hstarted)
      rw [← Delivered.insert?_eq_none hr.valid] at hcontains
      simp [hcontains] at hfresh
    · exact ⟨_, hstarted.mono log_subset_absorb, rfl⟩

theorem unrepeated_act (hg : g.Sound) (hr : Recalls g.log p (g.layers p))
    (hm : ∀ i r, Started g.log i r → i.sender ∈ (g.layers p).members) (hu : g.Unrepeated)
    (hs : (g.layers p).Step c es l) (hc : Cause ok g p c flying) :
    ({ g with flying }.absorb p es l).Unrepeated := by
  intro q i
  have hsub : g.log ⊆ ({ g with flying }.absorb p es l).log := log_subset_absorb (g := g) (l := l)
  have hold : deliveries g.log q i = [] ∨ ∃ r,
      Started ({ g with flying }.absorb p es l).log i r ∧ deliveries g.log q i = [r.payload] := by
    refine (hu q i).imp id ?_
    rintro ⟨r, hi, hd⟩
    exact ⟨r, hi.mono hsub, hd⟩
  rw [deliveries_absorb]
  by_cases hq : q = p
  · subst hq
    rw [if_pos rfl]
    rcases CausalLayer.step_deliveries (i := i) hs with hes | ⟨payload, informed, he, hes⟩
    · rw [hes, List.append_nil]
      exact hold
    · obtain ⟨hnew, r, hi, rfl⟩ := fresh_delivery hg hr hm hs hc he
      right
      refine ⟨r, hi, ?_⟩
      rw [hes, deliveries_eq_nil.mpr hnew, List.nil_append]
  · rw [if_neg hq, List.append_nil]
    exact hold

end Group

end Multicast
