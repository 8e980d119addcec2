import Mathlib.Data.List.Nodup
import Multicast.Proofs.Ascending
import Multicast.Proofs.Fallible
import Multicast.Proofs.Text.Identity
import Multicast.Settings.Basic

/-! A node may be given another port and another incarnation than its settings have. Settings that
are valid stay valid, and the members stay the same but for the node itself. -/
namespace Multicast.Settings

variable {s : Settings} {members : List Proc} {values : List String} {value : String}
  {p old new : Proc}

/-! ### When settings are valid -/

theorem requirePositive_eq_ok {settings : List (String × Nat)} :
    requirePositive settings = .ok () ↔ ∀ e ∈ settings, e.2 ≠ 0 := by
  unfold requirePositive
  cases h : settings.find? (·.2 = 0) with
  | none =>
    rw [List.find?_eq_none] at h
    simpa using h
  | some e =>
    have hzero : e.2 = 0 := by simpa using List.find?_some h
    simp only [reduceCtorEq, false_iff]
    exact fun hall => hall e (List.mem_of_find?_eq_some h) hzero

theorem validateMembers_eq_ok : s.validateMembers members = .ok () ↔
    members.Nodup ∧ (s.group.join = false → s.here ∈ members) := by
  rw [← Proc.firstRepeated?_eq_none, validateMembers]
  cases Proc.firstRepeated? members with
  | some p => simp
  | none => cases s.group.join <;> simp

/-- The constraints on all settings but the members. -/
structure Sound (s : Settings) : Prop where
  named : s.node.address ≠ ""
  positive : ∀ e ∈ s.positives, e.2 ≠ 0
  frame_fits : s.transport.maxFrameSize < UInt32.size
  reorders : s.fifo.maxBufferedPerSource ≠ some 0
  polls : s.runtime.pollIntervalMs ≠ 0
  reconnects : s.runtime.reconnectIntervalMs ≠ 0

/-- These are the members of the first view, each listed once. Unless the node waits to be taken in,
it is one of them. -/
structure Starts (s : Settings) (members : List Proc) : Prop where
  listed : s.initialMembers = .ok members
  nodup : members.Nodup
  here : s.group.join = false → s.here ∈ members

theorem validate_eq_ok : s.validate = .ok () ↔ s.Sound ∧ ∃ members, s.Starts members := by
  simp only [validate, Fallible.throwIf_eq_ok, Fallible.bind_eq_ok]
  constructor
  · rintro ⟨hnamed, members, hlisted, _, hmembers, _, hpositive, hframe, hreorder, hintervals⟩
    obtain ⟨hnodup, hhere⟩ := validateMembers_eq_ok.mp hmembers
    have hnonzero := requirePositive_eq_ok.mp hintervals
    exact ⟨⟨hnamed, requirePositive_eq_ok.mp hpositive, Nat.lt_of_not_le hframe, hreorder,
      hnonzero _ List.mem_cons_self, hnonzero _ (List.mem_cons_of_mem _ List.mem_cons_self)⟩,
      members, hlisted, hnodup, hhere⟩
  · rintro ⟨hs, members, hm⟩
    refine ⟨hs.named, members, hm.listed, (), validateMembers_eq_ok.mpr ⟨hm.nodup, hm.here⟩, (),
      requirePositive_eq_ok.mpr hs.positive, Nat.not_le_of_lt hs.frame_fits, hs.reorders,
      requirePositive_eq_ok.mpr ?_⟩
    intro e he
    rcases List.mem_cons.mp he with rfl | he
    · exact hs.polls
    · obtain rfl := List.mem_singleton.mp he
      exact hs.reconnects

/-! ### The members as the settings list them -/

/-- The entry is the text of a process, in some spelling. -/
def Spells (value : String) (p : Proc) : Prop := Proc.ofChars? value.toList = some p

theorem readMember_eq_ok : readMember value = .ok p ↔ Spells value p := by
  rw [readMember, Fallible.mapError_eq_ok, Proc.parse, Spells]
  cases Proc.ofChars? value.toList <;> simp

theorem initialMembers_eq_ok : s.initialMembers = .ok members ↔
    if s.group.join then members = []
    else if s.group.members = [] then members = [s.here]
    else List.Forall₂ Spells s.group.members members := by
  unfold initialMembers
  split
  · rw [Except.ok.injEq, eq_comm]
  · split
    · rw [Except.ok.injEq, eq_comm]
    · simp only [Fallible.mapM_eq_ok, readMember_eq_ok]

/-- The new identity in the place of the old one, unless it is listed already. -/
def relist (old new : Proc) (members : List Proc) : List Proc :=
  if old = new ∨ new ∈ members then members
  else members.map fun p => if p = old then new else p

/-- The entries for the old identity changed to the new one, unless an entry names that already. -/
def rename (old new : Proc) (values : List String) : List String :=
  if old = new ∨ ∃ value ∈ values, Proc.ofChars? value.toList = some new then values
  else values.map fun value =>
    if Proc.ofChars? value.toList = some old then new.text else value

theorem exists_spells (h : List.Forall₂ Spells values members) :
    (∃ value ∈ values, Spells value p) ↔ p ∈ members := by
  induction h with
  | nil => simp
  | @cons value q values members hq hrest ih =>
    have hfirst : Spells value p ↔ p = q := by
      rw [Spells, hq, Option.some_inj, eq_comm]
    simp [ih, hfirst]

/-- Entries that are changed are read as the members changed in the same way. -/
theorem spells_rename (hnew : new.address ≠ "") (h : List.Forall₂ Spells values members) :
    List.Forall₂ Spells (rename old new values) (relist old new members) := by
  have hlisted : (∃ value ∈ values, Proc.ofChars? value.toList = some new) ↔ new ∈ members :=
    exists_spells h
  simp only [rename, relist, hlisted]
  split
  · exact h
  · rw [List.forall₂_map_left_iff, List.forall₂_map_right_iff]
    refine h.imp fun value p hp => ?_
    simp only [show Proc.ofChars? value.toList = some p from hp, Option.some_inj]
    split
    · exact Proc.ofChars?_shown hnew
    · exact hp

theorem relist_nodup (h : members.Nodup) : (relist old new members).Nodup := by
  unfold relist
  split
  · exact h
  · rename_i hfresh
    refine List.Nodup.map_on (fun p hp q hq heq => ?_) h
    split at heq <;> split at heq
    · rename_i hp' hq'
      exact hp'.trans hq'.symm
    · exact (hfresh (.inr (heq ▸ hq))).elim
    · exact (hfresh (.inr (heq ▸ hp))).elim
    · exact heq

theorem mem_relist (h : old ∈ members) : new ∈ relist old new members := by
  unfold relist
  split
  · rename_i hlisted
    rcases hlisted with rfl | hlisted
    · exact h
    · exact hlisted
  · exact List.mem_map.mpr ⟨old, h, if_pos rfl⟩

/-! ### Another identity -/

variable {port : Option UInt16} {incarnation : Option UInt32}

/-- The local process as the overrides make it. -/
def overridden (s : Settings) (port : Option UInt16) (incarnation : Option UInt32) : Proc :=
  ⟨s.node.address, port.getD s.node.port, incarnation.getD s.node.incarnation⟩

/-- Nothing but the node's own identity and its entry among the members is changed. -/
theorem withIdentity_eq : s.withIdentity port incarnation = { s with
    node := { s.node with
      port := port.getD s.node.port
      incarnation := incarnation.getD s.node.incarnation }
    group := { s.group with
      members := rename s.here (s.overridden port incarnation) s.group.members } } := by
  have hhere : { s with node := { s.node with
      port := port.getD s.node.port
      incarnation := incarnation.getD s.node.incarnation } }.here =
        s.overridden port incarnation := rfl
  simp only [withIdentity, hhere, rename, Bool.or_eq_true, decide_eq_true_eq, List.any_eq_true]
  split <;> rfl

theorem here_withIdentity :
    (s.withIdentity port incarnation).here = s.overridden port incarnation := by
  rw [withIdentity_eq]
  rfl

theorem Sound.withIdentity (h : s.Sound) : (s.withIdentity port incarnation).Sound := by
  rw [withIdentity_eq]
  exact ⟨h.named, h.positive, h.frame_fits, h.reorders, h.polls, h.reconnects⟩

theorem initialMembers_withIdentity (hnamed : s.node.address ≠ "")
    (h : s.initialMembers = .ok members) : (s.withIdentity port incarnation).initialMembers =
      .ok (relist s.here (s.overridden port incarnation) members) := by
  rw [initialMembers_eq_ok] at h
  rw [initialMembers_eq_ok, here_withIdentity, withIdentity_eq]
  dsimp only
  by_cases hjoin : s.group.join
  · rw [if_pos hjoin] at h ⊢
    subst h
    simp [relist]
  · rw [if_neg hjoin] at h ⊢
    by_cases hempty : s.group.members = []
    · rw [if_pos hempty] at h
      subst h
      by_cases hsame : s.here = s.overridden port incarnation
      · simp [rename, relist, hempty, hsame]
      · simp [rename, relist, hempty, hsame, Ne.symm hsame]
    · rw [if_neg hempty] at h
      have hlisted : rename s.here (s.overridden port incarnation) s.group.members ≠ [] := by
        unfold rename
        split <;> simp [hempty]
      rw [if_neg hlisted]
      exact spells_rename hnamed h

/-- Valid settings stay valid if the node is given another port or incarnation, or both. The node
then has the identity that was asked for. In the first view it stands where its old identity stood,
unless it had a place of its own there, and it is there just once; all other members are left. No
other setting is changed. -/
theorem overrides_keep_valid (h : s.validate = .ok ()) (port : Option UInt16)
    (incarnation : Option UInt32) :
    let s' := s.withIdentity port incarnation
    s'.validate = .ok () ∧
    s'.here = ⟨s.node.address, port.getD s.node.port, incarnation.getD s.node.incarnation⟩ ∧
    (∃ entries, s' = { s with
      node := { s.node with
        port := port.getD s.node.port
        incarnation := incarnation.getD s.node.incarnation }
      group := { s.group with members := entries } }) ∧
    ∃ members, s.Starts members ∧ s'.Starts (relist s.here s'.here members) := by
  intro s'
  obtain ⟨hsound, members, hm⟩ := validate_eq_ok.mp h
  have hhere : s'.here = s.overridden port incarnation := here_withIdentity
  have hframe : s' = _ := withIdentity_eq
  have hstarts : s'.Starts (relist s.here s'.here members) := by
    rw [hhere]
    refine ⟨initialMembers_withIdentity hsound.named hm.listed, relist_nodup hm.nodup, ?_⟩
    intro hjoin
    rw [hframe] at hjoin
    rw [hhere]
    exact mem_relist (hm.here hjoin)
  exact ⟨validate_eq_ok.mpr ⟨hsound.withIdentity, _, hstarts⟩, hhere, ⟨_, hframe⟩, members, hm,
    hstarts⟩

/-- The entries are not spelled as identities are shown, and the second is an address with colons of
its own. -/
theorem restarted_valid : let s : Settings :=
      { group := { members := ["127.0.0.1:07400:+0", "::1:7401:0"] } }
    let s' := s.withIdentity none (some 3)
    s.validate = .ok () ∧ s'.validate = .ok () ∧
    s'.initialMembers = .ok [⟨"127.0.0.1", 7400, 3⟩, ⟨"::1", 7401, 0⟩] := by
  intro s s'
  have hvalid : s.validate = .ok () := by rfl
  have hmembers : s.initialMembers = .ok [⟨"127.0.0.1", 7400, 0⟩, ⟨"::1", 7401, 0⟩] := by rfl
  obtain ⟨hvalid', -, -, members, hm, hm'⟩ := overrides_keep_valid hvalid none (some 3)
  obtain rfl := Except.ok.inj (hmembers.symm.trans hm.listed)
  refine ⟨hvalid, hvalid', hm'.listed.trans (congrArg Except.ok ?_)⟩
  rfl

end Multicast.Settings
