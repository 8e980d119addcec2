import Mathlib.Logic.Relation
import Multicast.Proofs.Causal.Calls
import Multicast.Proofs.Causal.Lists

/-! In a group with a fixed member list, messages are delivered in the order in which they
happen. -/
namespace Multicast

namespace History

/-- Some process had started or delivered `i` when it started `j`. -/
def Precedes (h : History) (i j : MessageId) : Prop :=
  ∃ past after p s, h = past ++ (p, .started j s) :: after ∧ Known past p i

def HappensBefore (h : History) : MessageId → MessageId → Prop := Relation.TransGen (Precedes h)

/-- What a process has taken up when it starts a message, all destinations have delivered. -/
def Safe (h : History) : Prop :=
  ∀ past after p j s, h = past ++ (p, .started j s) :: after →
    ∀ i r d, Known past p i → Started h i r → d ∈ r.destinations → HasDelivered past d i

/-- A common destination of two messages delivers first the one that happens first. -/
def Causal (h : History) : Prop :=
  ∀ i j r s d, HappensBefore h i j → Started h i r → Started h j s →
    d ∈ r.destinations → d ∈ s.destinations → DeliversBefore h d i j

end History

namespace Group
open History

variable {g : Group} {p q d : Proc} {i j : MessageId} {r s : CausalRequest} {e : CausalEvent}
  {past past' after after' : History} {members : List Proc}

theorem safe_of_ordered (hg : g.Sound) (ho : Ordered g.log)
    (hk : ∀ i r, Started g.log i r → ∀ d ∈ r.destinations, g.Keeps d) : Safe g.log := by
  intro past after p j s hsplit i r d hknown hr hd
  obtain ⟨e, he, ht⟩ := hknown
  obtain ⟨before, mid, hpast⟩ := List.append_of_mem he
  rcases delivered_or_omitted hg ho hsplit hpast ht hr hd with h | ⟨e', he', ho'⟩
  · exact h
  · have hmem : (p, e') ∈ g.log := by
      refine subset_of_split hsplit ?_
      rw [hpast]
      exact List.mem_append_right _ he'
    exact ((hk i r hr d hd).shown p e' hmem ho').elim

/-- Whatever happens before a message has reached its own destinations when that one starts. -/
theorem delivered_of_happensBefore (hg : g.Sound) (hsafe : Safe g.log)
    (hb : HappensBefore g.log i j) (hr : Started g.log i r) (hd : d ∈ r.destinations)
    (hsplit : g.log = past ++ (p, .started j s) :: after) : HasDelivered past d i := by
  induction hb generalizing past p s after with
  | single hij =>
    obtain ⟨past', after', p', s', hsplit', hk⟩ := hij
    obtain ⟨rfl, rfl⟩ := start_unique hg hsplit hsplit'
    exact hsafe _ _ _ _ _ hsplit i r d hk hr hd
  | tail _ hkj ih =>
    obtain ⟨past', after', p', s', hsplit', hk⟩ := hkj
    obtain ⟨rfl, rfl⟩ := start_unique hg hsplit hsplit'
    obtain ⟨t, ht⟩ := started_of_known hg ⟨_, hsplit.symm⟩ hk
    obtain ⟨before, mid, hpast⟩ := List.append_of_mem ht
    have hbefore := ih (split_split hsplit hpast)
    exact hbefore.mono (subset_of_split hpast)

theorem causal_of_safe (hg : g.Sound) (hsafe : Safe g.log) : Causal g.log := by
  intro i j r s d hb hr hs hd _
  obtain ⟨past, after, hsplit⟩ := List.append_of_mem hs
  exact deliversBefore_of_start hg hsplit (delivered_of_happensBefore hg hsafe hb hr hd hsplit)

/-- The action brings no member list. -/
def Action.keepsLists : Action → Bool
  | init .. | view .. => false
  | _ => true

theorem reach_fixed {actions : List Action} (h : ∀ a ∈ actions, a.keepsLists = true) :
    Reach (fun _ a => a.keepsLists = true) g (g.run actions) :=
  reach_run fun _ a ha => h a (ha.subset (by simp))

/-- What a process has taken up has reached its destinations when the process starts a message, so
all deliveries follow the order in which messages happen. The log tells what the layers put out. -/
theorem fixed_causal_order (members : List Proc) (window capacity : Proc → Nat)
    (actions : List Action) (hnodup : members.Nodup) (hfixed : ∀ a ∈ actions, a.keepsLists = true) :
    let g₀ := formed members window capacity
    let g := g₀.run actions
    Safe g.log ∧ Causal g.log ∧
      ∀ p, g.output p = (g₀.layers p).output (g₀.calls p actions) := by
  intro g₀ g
  have hb : (formed members window capacity).Blank := blank_formed hnodup
  have hreach := reach_fixed (g := formed members window capacity) hfixed
  have hg := sound_reach hreach (sound_blank hb)
  have hnone : ∀ p ms, ¬ (Action.keepsLists (.init p ms) = true ∨
      Action.keepsLists (.view p ms) = true) := by
    simp [Action.keepsLists]
  have hw := within_reach hreach (within_formed hnodup)
    fun _ p ms h => (hnone p ms h).elim
  have hsafe := safe_of_ordered hg (gated_reach hreach hb).2 fun i r hr d hd =>
    keeps_reach hreach (keeps_formed hnodup (hw.started _ i r hr d hd))
      fun _ p ms h => (hnone p ms h).elim
  exact ⟨hsafe, causal_of_safe hg hsafe, fun _ => output_run hb⟩

theorem relay_ordered : let a : Proc := ⟨"a", 1, 0⟩
    let b : Proc := ⟨"b", 1, 0⟩
    let c : Proc := ⟨"c", 1, 0⟩
    let h := ((formed [a, b, c] (fun _ => 4) (fun _ => 4)).run (relay a b c)).log
    HappensBefore h ⟨a, 0⟩ ⟨b, 0⟩ ∧
      ∃ past e, h = past ++ [(c, e)] ∧ e.Delivers ⟨b, 0⟩ ∧ HasDelivered past c ⟨a, 0⟩ := by
  intro a b c h
  have hb : HappensBefore h ⟨a, 0⟩ ⟨b, 0⟩ :=
    .single ⟨h.take 3, h.drop 4, b, ⟨[], [c]⟩, by decide, .delivered ⟨a, 0⟩ [] [c, a] [a, b, c],
      by decide, Or.inr rfl⟩
  have ho := (fixed_causal_order [a, b, c] (fun _ => 4) (fun _ => 4) (relay a b c)
    (by decide) (by decide)).2.1 ⟨a, 0⟩ ⟨b, 0⟩ ⟨[], [b, c]⟩ ⟨[], [c]⟩ c hb
    (by decide) (by decide) (by decide) (by decide)
  have hsplit : h = h.take 4 ++ [(c, .delivered ⟨b, 0⟩ [] [b] [a, b, c])] := by decide
  exact ⟨hb, h.take 4, _, hsplit, rfl, ho _ _ _ hsplit rfl⟩

end Group

end Multicast
