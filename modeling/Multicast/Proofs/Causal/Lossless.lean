import Multicast.Proofs.Causal.Early

/-! A group with a fixed member list that loses no packet: what is on its way in it, and that its
layers forget no acknowledgement that comes early. -/
namespace Multicast.Group
open History

variable {g : Group} {p d : Proc} {c : Option CausalCall} {l : CausalLayer}
  {i : MessageId} {r : CausalRequest} {es : List CausalEvent}
  {flying : List Flight} {f : Flight} {ok : Group → Action → Prop} {members : List Proc}
  {window capacity : Proc → Nat}

/-- Members send, and no packet is lost. -/
def Lossless (members : List Proc) : Action → Prop
  | .send p _ _ => p ∈ members
  | .deliver _ | .copy _ => True
  | .init .. | .view .. | .lose _ => False

instance : DecidablePred (Lossless members) := fun a =>
  match a with
  | .send p _ _ => inferInstanceAs (Decidable (p ∈ members))
  | .deliver _ | .copy _ => isTrue trivial
  | .init .. | .view .. | .lose _ => isFalse id

theorem closed_of_lossless {a : Action} (h : Lossless members a) : Closed members a := by
  cases a <;> first | exact h | exact trivial

/-! ### Messages on their way -/

/-- What is started reaches every destination, and is acknowledged to those who take part. -/
structure Flowing (g : Group) : Prop where
  carried : ∀ i r d, Started g.log i r → d ∈ r.destinations →
    HasDelivered g.log d i ∨ ⟨i.sender, d, .send i r.destinations r.payload⟩ ∈ g.flying
  addressed : ∀ f ∈ g.flying, ∀ i, f.packet = .ack i →
    ∃ r, Started g.log i r ∧ (f.target ∈ r.destinations ∨ f.target = i.sender)

section flowing
variable (hg : g.Steady members) (hs : (g.layers p).Step c es l) (hc : Cause ok g p c flying)
include hg hs

/-- A process delivers its own message at once and sends it to the others. -/
theorem carried_of_start (hr : .started i r ∈ es) (hd : d ∈ r.destinations) :
    HasDelivered ({ g with flying }.absorb p es l).log d i ∨
      ⟨i.sender, d, .send i r.destinations r.payload⟩ ∈
        ({ g with flying }.absorb p es l).flying := by
  obtain ⟨-, rfl, hes, -⟩ := CausalLayer.step_started hs hr
  have hsender : (g.layers p).nextId.sender = p := hg.sound.here p
  by_cases hp : d = p
  · subst hp
    left
    have hmem := CausalLayer.mem_startEvents.mpr
      (Or.inr (Or.inl ⟨by rwa [hg.sound.here d], rfl⟩))
    rw [← hes] at hmem
    exact delivered_absorb.mpr (Or.inr ⟨rfl, _, hmem, rfl⟩)
  · right
    refine mem_absorb_flying.mpr (Or.inr ⟨hsender, _, hr, ?_⟩)
    simp [CausalEvent.output, hd, hsender, hp]

include hc

theorem carried_act (hf : ∀ i r d, Started g.log i r → d ∈ r.destinations →
      HasDelivered g.log d i ∨ ⟨i.sender, d, .send i r.destinations r.payload⟩ ∈ g.flying)
    (hr : Started ({ g with flying }.absorb p es l).log i r)
    (hd : d ∈ r.destinations) : HasDelivered ({ g with flying }.absorb p es l).log d i ∨
      ⟨i.sender, d, .send i r.destinations r.payload⟩ ∈
        ({ g with flying }.absorb p es l).flying := by
  rcases mem_absorb_log.mp hr with hold | ⟨-, hnew⟩
  · rcases hf i r d hold hd with hdel | hfly
    · exact Or.inl (hdel.mono (log_subset_absorb (g := g) (l := l)))
    · rcases hc.mem_flying hfly with hstay | ⟨hp, hcall⟩
      · exact Or.inr (mem_absorb_flying.mpr (Or.inl hstay))
      · -- The message is heard now, so it is delivered now or was before.
        dsimp only at hp hcall
        subst hp hcall
        left
        rcases CausalLayer.step_arrival hs with hnow | hknown
        · exact delivered_absorb.mpr (Or.inr ⟨rfl, hnow⟩)
        · rw [Delivered.insert?_eq_none (hg.recalls d).valid] at hknown
          exact ((hg.recalls d).sound i hknown).mono (log_subset_absorb (g := g) (l := l))
  · exact carried_of_start hg hs hnew hd

end flowing

/-- Nobody refuses a packet. -/
theorem Steady.hears (hg : g.Steady members) (hf : f ∈ g.flying) :
    (g.layers f.target).Hears f.source := by
  refine ⟨(hg.recalls _).ready, ?_⟩
  cases hp : f.packet with
  | send i destinations payload =>
    obtain ⟨hsource, -, hr⟩ := hg.sound.sent f hf i destinations payload hp
    rw [hsource]
    exact hg.sender_listed hr
  | ack i =>
    have hd := hg.sound.acked f hf i hp
    obtain ⟨r, hr⟩ := started_of_known hg.sound (List.prefix_refl _) hd.known
    have hdest := destination_of_delivered hg.sound hd hr
    exact (hg.keeps _ (hg.within.started _ i r hr _ hdest)).listed _

section reach
variable (hok : ∀ g a, ok g a → Lossless members a) (hnodup : members.Nodup)
  (h : Reach ok (formed members window capacity) g)
include hok hnodup h

theorem steady_lossless : g.Steady members :=
  steady_reach (fun g a ha => closed_of_lossless (hok g a ha)) hnodup h

theorem flowing_reach : g.Flowing := by
  refine ⟨?_, addressed_reach h (blank_formed hnodup)⟩
  induction h with
  | refl => simp [Started, formed]
  | step reach micro ih =>
    have hg := steady_lossless hok hnodup reach
    cases micro with
    | act cause step => exact fun _ _ _ => carried_act hg step cause ih
    | refuse _ flying deaf => exact (deaf (hg.hears flying)).elim
    | lose allowed => exact (hok _ _ allowed).elim

end reach

/-! ### Acknowledgements that come early -/

/-- Whatever is in the tables of early acknowledgements belongs there, and nothing was evicted. -/
structure Roomy (capacity : Proc → Nat) (g : Group) : Prop where
  capacity : ∀ p, (g.layers p).earlyCapacity = capacity p
  nodup : ∀ p, ((g.layers p).early.map (·.id)).Nodup
  premature : ∀ p, ∀ e ∈ (g.layers p).early,
    e.id.sender ≠ p ∧ (∃ r, Started g.log e.id r ∧ p ∈ r.destinations) ∧
      ¬ HasDelivered g.log p e.id
  kept : ∀ p e, (p, .evicted e) ∉ g.log

theorem roomy_reach (hok : ∀ g a, ok g a → Lossless members a) (hnodup : members.Nodup)
    (hroom : ∀ p ∈ members, members.length ≤ capacity p)
    (h : Reach ok (formed members window capacity) g) : g.Roomy capacity := by
  have hclosed : ∀ g a, ok g a → Closed members a := fun g a ha => closed_of_lossless (hok g a ha)
  have he := expectant_reach hclosed hnodup h
  refine ⟨fun p => earlyCapacity_reach hnodup h, he.nodup, fun p e hmem => ?_, fun p => ?_⟩
  · obtain ⟨hne, hr, hn⟩ := he.due p e hmem
    exact ⟨hne, hr, hn⟩
  · have hkept := not_evicted (p := p) hclosed hnodup h fun hp => Nat.le_succ_of_le (hroom p hp)
    exact hkept.1

end Multicast.Group
