import Mathlib.Data.List.Induction
import Mathlib.Data.List.Nodup
import Mathlib.Data.List.Perm.Basic
import Multicast.Proofs.Net.TieBreak
import Multicast.Proofs.Node.PeerTable

/-! Several connections between two processes. Each end keeps one, closes every other one once and
reports its peer once; both ends keep the same, in whatever order they heed the connections. -/
namespace Multicast

/-- A transport, and the connections that were closed on it, oldest first. -/
structure Monitored where
  net : Transport
  closed : List ConnectionId := []

instance : Carrier Monitored where
  connect m p := ((Carrier.connect m.net p).1, { m with net := (Carrier.connect m.net p).2 })
  disconnect m c := { m with net := Carrier.disconnect m.net c }
  close m c := { net := Carrier.close m.net c, closed := m.closed ++ [c] }
  setMessage m c payload := ((Carrier.setMessage m.net c payload).1,
    { m with net := (Carrier.setMessage m.net c payload).2 })
  start m c := ((Carrier.start m.net c).1, { m with net := (Carrier.start m.net c).2 })

/-- One end: its table, its transport, and what it has reported. -/
structure Side where
  table : PeerTable
  carrier : Monitored
  events : List NodeEvent := []

namespace PeerTable

variable {t : PeerTable} {m : Monitored} {c d : ConnectionId} {p : Proc}
  {key : Option ConnectionKey} {link : PeerLink} {reason : String} {remote : Option Proc}

theorem peer_adopt : (t.adopt c p key m).2.1.peer p =
    { t.peer p with link := some ⟨c, key, false, none⟩ } := peer_set_self

theorem ownerOf?_adopt : (t.adopt c p key m).2.1.ownerOf? d =
    if d = c then some p else t.ownerOf? d := ownerOf?_put

theorem closed_adopt : (t.adopt c p key m).2.2.closed = m.closed := rfl

/-- A process is up with the first connection that is adopted. -/
theorem events_adopt (hc : (m.net.connection? c).isSome = true) :
    (t.adopt c p key m).1 = if (t.peer p).link.isNone then [.peerUp p] else [] := by
  have hstarted : (Carrier.start m c).1 = true := Transport.start_of_connection hc
  simp only [adopt, hstarted, Bool.true_and]

/-- To lose a connection of `p` that it is not reached over and that is not being opened changes
nothing about `p`. -/
theorem onLost_retired (howner : ∀ q, t.ownerOf? c = some q → q = p)
    (hremote : remote = none ∨ remote = some p) (hdialing : (t.peer p).dialing ≠ some c)
    (hlink : ∀ l, (t.peer p).link = some l → l.connection ≠ c) (reason : String) :
    ∃ t', t.onLost c remote reason = ([], t') ∧ t'.peer p = t.peer p ∧
      ∀ d q, t'.ownerOf? d = some q → t.ownerOf? d = some q := by
  have hless : ∀ d q, (t.owners.erase c).get? d = some q → t.ownerOf? d = some q := by
    intro d q hd
    rw [Table.get?_erase] at hd
    split at hd
    · cases hd
    · exact hd
  cases hpid : (t.ownerOf? c).or remote with
  | none =>
    refine ⟨t, ?_, rfl, fun _ _ h => h⟩
    simp only [onLost, hpid]
  | some q =>
    have hq : q = p := by
      cases ho : t.ownerOf? c with
      | some r => exact howner q (by simp_all)
      | none =>
        rw [ho, Option.none_or] at hpid
        rcases hremote with hremote | hremote <;> simp_all
    subst hq
    refine ⟨{ t with owners := t.owners.erase c }, ?_, rfl, hless⟩
    cases hpeer : t.peers.get? q with
    | none => simp only [onLost, hpid, hpeer]
    | some peer =>
      rw [peer_of_get? hpeer] at hdialing hlink
      cases hl : peer.link with
      | none => simp only [onLost, hpid, hpeer, hdialing, hl, if_false]
      | some l => simp only [onLost, hpid, hpeer, hdialing, hl, hlink l hl, if_false]

end PeerTable

namespace Side

variable {peer p : Proc} {s : Side} {c : ConnectionId} {key : ConnectionKey}
  {x : ConnectionId × ConnectionKey} {xs : List (ConnectionId × ConnectionKey)}

inductive Action where
  /-- A connection has completed its handshake. -/
  | establish (c : ConnectionId) (key : ConnectionKey)
  /-- A connection was closed or broke. -/
  | lose (c : ConnectionId) (remote : Option Proc) (reason : String)
  /-- The transport has gone on by itself. -/
  | advance (net : Transport)

variable {a : Action} {actions : List Action}

def step (peer : Proc) (s : Side) : Action → Side
  | .establish c key =>
    let (events, table, carrier) := s.table.onEstablished c peer (some key) s.carrier
    { table, carrier, events := s.events ++ events }
  | .lose c remote reason =>
    let (events, table) := s.table.onLost c remote reason
    { s with table, events := s.events ++ events }
  | .advance net => { s with carrier := { s.carrier with net } }

def run (peer : Proc) (s : Side) (actions : List Action) : Side := actions.foldl (step peer) s

/-- A connection is heeded while the transport has it. Only connections that were closed here are
lost. -/
def Permitted (peer : Proc) (s : Side) : Action → Prop
  | .establish c _ => (s.carrier.net.connection? c).isSome = true
  | .lose c remote _ => c ∈ s.carrier.closed ∧ (remote = none ∨ remote = some peer)
  | .advance _ => True

def Proper (peer : Proc) (s : Side) : List Action → Prop
  | [] => True
  | a :: actions => Permitted peer s a ∧ Proper peer (s.step peer a) actions

instance : Decidable (Permitted peer s a) :=
  match a with
  | .establish c _ => inferInstanceAs (Decidable ((s.carrier.net.connection? c).isSome = true))
  | .lose c remote _ => inferInstanceAs
      (Decidable (c ∈ s.carrier.closed ∧ (remote = none ∨ remote = some peer)))
  | .advance _ => isTrue trivial

instance decidableProper : (s : Side) → (actions : List Action) →
    Decidable (Proper peer s actions)
  | _, [] => isTrue trivial
  | s, a :: actions =>
    have := decidableProper (s.step peer a) actions
    inferInstanceAs (Decidable (Permitted peer s a ∧ Proper peer (s.step peer a) actions))

/-- The connections that were heeded, oldest first. -/
def arrivals (actions : List Action) : List (ConnectionId × ConnectionKey) :=
  actions.filterMap fun
    | .establish c key => some (c, key)
    | _ => none

/-- Different sockets, none of which leads back to where it comes from. -/
structure Distinct (xs : List (ConnectionId × ConnectionKey)) : Prop where
  ids : (xs.map (·.1)).Nodup
  keys : (xs.map (·.2.canonical)).Nodup
  plain : ∀ x ∈ xs, x.2.isSelfLoop = false

/-- The table keeps `x`, the first of the connections in the order of the sockets. -/
structure Keeps (peer : Proc) (xs : List (ConnectionId × ConnectionKey))
    (x : ConnectionId × ConnectionKey) (s : Side) : Prop where
  mem : x ∈ xs
  least : ∀ y ∈ xs, y ≠ x → x.2.order y.2 = .lt
  link : ∃ l, (s.table.peer peer).link = some l ∧ l.connection = x.1 ∧ l.key = some x.2
  closed : s.carrier.closed.Perm ((xs.erase x).map (·.1))
  events : s.events = [.peerUp peer]

structure Settled (peer : Proc) (xs : List (ConnectionId × ConnectionKey)) (s : Side) : Prop where
  dialing : ∀ x ∈ xs, (s.table.peer peer).dialing ≠ some x.1
  owner : ∀ x ∈ xs, ∀ p, s.table.ownerOf? x.1 = some p → p = peer
  none_or_keeps : (xs = [] ∧ (s.table.peer peer).link = none ∧ s.carrier.closed = [] ∧
    s.events = []) ∨ ∃ x, Keeps peer xs x s

theorem Distinct.left (h : Distinct (xs ++ [x])) : Distinct xs := by
  obtain ⟨hids, hkeys, hplain⟩ := h
  rw [List.map_append] at hids hkeys
  exact ⟨(List.nodup_append.mp hids).1, (List.nodup_append.mp hkeys).1,
    fun y hy => hplain y (List.mem_append_left _ hy)⟩

theorem Distinct.new (h : Distinct (xs ++ [x])) {y : ConnectionId × ConnectionKey} (hy : y ∈ xs) :
    x.1 ≠ y.1 ∧ y.2.canonical ≠ x.2.canonical := by
  obtain ⟨hids, hkeys, -⟩ := h
  rw [List.map_append] at hids hkeys
  constructor
  · exact ((List.nodup_append.mp hids).2.2 y.1 (List.mem_map_of_mem hy) x.1 (by simp)).symm
  · exact (List.nodup_append.mp hkeys).2.2 _ (List.mem_map_of_mem hy) _ (by simp)

/-- The connection that is kept is none of those that were closed. -/
theorem Keeps.open (h : Keeps peer xs x s) (hd : Distinct xs) : x.1 ∉ s.carrier.closed := by
  intro hx
  have hids := hd.ids
  rw [((List.perm_cons_erase h.mem).map (·.1)).nodup_iff, List.map_cons] at hids
  exact (List.nodup_cons.mp hids).1 (h.closed.mem_iff.mp hx)

/-- Whatever becomes of a connection, it is known whose it is and it is no longer being opened. -/
theorem establish_frame (peer : Proc) (s : Side) (c : ConnectionId) (key : ConnectionKey) :
    ((s.step peer (.establish c key)).table.peer peer).dialing =
      ((s.table.peer peer).reached c).dialing ∧
    ∀ d, (s.step peer (.establish c key)).table.ownerOf? d =
      if d = c then some peer else s.table.ownerOf? d := by
  simp only [step, PeerTable.onEstablished_eq]
  split
  · exact ⟨by rw [PeerTable.peer_adopt, PeerTable.peer_set_self], fun d => PeerTable.ownerOf?_adopt⟩
  · split
    · exact ⟨congrArg Peer.dialing PeerTable.peer_set_self, fun d => PeerTable.ownerOf?_put⟩
    · exact ⟨congrArg Peer.dialing PeerTable.peer_set_self, fun d => PeerTable.ownerOf?_put⟩
    · exact ⟨by rw [PeerTable.peer_adopt, PeerTable.peer_set_self],
        fun d => PeerTable.ownerOf?_adopt⟩

theorem keeps_first (hc : (s.carrier.net.connection? c).isSome = true)
    (hlink : (s.table.peer peer).link = none) (hclosed : s.carrier.closed = [])
    (hevents : s.events = []) :
    Keeps peer [(c, key)] (c, key) (s.step peer (.establish c key)) := by
  simp only [step, PeerTable.onEstablished_eq, hlink]
  refine ⟨List.mem_singleton_self _, ?_, ⟨⟨c, some key, false, none⟩, ?_, rfl, rfl⟩, ?_, ?_⟩
  · intro y hy hne
    exact (hne (List.mem_singleton.mp hy)).elim
  · rw [PeerTable.peer_adopt]
  · rw [PeerTable.closed_adopt, hclosed, List.erase_cons_head]
    exact List.Perm.nil
  · rw [PeerTable.events_adopt hc, PeerTable.peer_set_self, Peer.link_reached, hlink, hevents]
    rfl

theorem keeps_old (h : Keeps peer xs x s) (hd : Distinct (xs ++ [(c, key)]))
    (hless : x.2.order key = .lt) :
    Keeps peer (xs ++ [(c, key)]) x (s.step peer (.establish c key)) := by
  obtain ⟨l, hlink, hl, hkey⟩ := h.link
  have hdecides : tieBreak l.key (some key) = .keepFirst := by
    rw [hkey]
    exact tieBreak_first (hd.plain x (List.mem_append_left _ h.mem))
      (hd.plain (c, key) (List.mem_append_right _ List.mem_cons_self)) hless
  simp only [step, PeerTable.onEstablished_eq, hlink, hdecides]
  refine ⟨List.mem_append_left _ h.mem, ?_, ⟨l, ?_, hl, hkey⟩, ?_, ?_⟩
  · intro y hy hne
    rcases List.mem_append.mp hy with hy | hy
    · exact h.least y hy hne
    · rw [List.mem_singleton.mp hy]
      exact hless
  · change ((s.table.set peer ((s.table.peer peer).reached c)).peer peer).link = some l
    rw [PeerTable.peer_set_self, Peer.link_reached, hlink]
  · rw [List.erase_append_left _ h.mem, List.map_append]
    exact h.closed.append_right [c]
  · rw [List.append_nil]
    exact h.events

theorem keeps_new (h : Keeps peer xs x s) (hd : Distinct (xs ++ [(c, key)]))
    (hc : (s.carrier.net.connection? c).isSome = true) (hless : key.order x.2 = .lt) :
    Keeps peer (xs ++ [(c, key)]) (c, key) (s.step peer (.establish c key)) := by
  obtain ⟨l, hlink, hl, hkey⟩ := h.link
  have hdecides : tieBreak l.key (some key) = .keepSecond := by
    rw [hkey]
    exact tieBreak_second (hd.plain x (List.mem_append_left _ h.mem))
      (hd.plain (c, key) (List.mem_append_right _ List.mem_cons_self)) hless
  have hother : c ≠ l.connection := hl ▸ (hd.new h.mem).1
  have hstill : ((Carrier.close s.carrier l.connection).net.connection? c).isSome = true := by
    change ((Carrier.close s.carrier.net l.connection).connection? c).isSome = true
    rw [Transport.connection?_close_of_ne hother]
    exact hc
  have hfresh : (c, key) ∉ xs := fun hmem => (hd.new hmem).1 rfl
  simp only [step, PeerTable.onEstablished_eq, hlink, hdecides]
  refine ⟨List.mem_append_right _ List.mem_cons_self, ?_,
    ⟨⟨c, some key, false, none⟩, ?_, rfl, rfl⟩, ?_, ?_⟩
  · intro y hy hne
    rcases List.mem_append.mp hy with hy | hy
    · by_cases hyx : y = x
      · rw [hyx]
        exact hless
      · exact ConnectionKey.order_trans hless (h.least y hy hyx)
    · exact (hne (List.mem_singleton.mp hy)).elim
  · rw [PeerTable.peer_adopt]
  · rw [PeerTable.closed_adopt, List.erase_append_right _ hfresh, List.erase_cons_head,
      List.append_nil]
    have hback : (x.1 :: (xs.erase x).map Prod.fst).Perm (xs.map Prod.fst) :=
      ((List.perm_cons_erase h.mem).map Prod.fst).symm
    have hlast : (s.carrier.closed ++ [l.connection]).Perm (x.1 :: s.carrier.closed) := by
      rw [hl]
      exact List.perm_append_singleton ..
    exact (hlast.trans (h.closed.cons x.1)).trans hback
  · rw [PeerTable.events_adopt hstill, PeerTable.peer_set_self, Peer.link_reached, hlink]
    simpa using h.events

theorem Settled.establish (h : Settled peer xs s) (hd : Distinct (xs ++ [(c, key)]))
    (hc : (s.carrier.net.connection? c).isSome = true) :
    Settled peer (xs ++ [(c, key)]) (s.step peer (.establish c key)) := by
  obtain ⟨hdialing, howner⟩ := establish_frame peer s c key
  refine ⟨?_, ?_, ?_⟩
  · intro y hy
    rw [hdialing]
    rcases List.mem_append.mp hy with hy | hy
    · exact fun hback => h.dialing y hy (Peer.dialing_of_reached hback)
    · rw [List.mem_singleton.mp hy]
      exact Peer.dialing_reached_ne
  · intro y hy p hp
    rw [howner] at hp
    split at hp
    · exact (Option.some.inj hp).symm
    · rename_i hne
      rcases List.mem_append.mp hy with hy | hy
      · exact h.owner y hy p hp
      · exact (hne (congrArg Prod.fst (List.mem_singleton.mp hy))).elim
  · right
    rcases h.none_or_keeps with ⟨rfl, hlink, hclosed, hevents⟩ | ⟨x, hx⟩
    · exact ⟨_, keeps_first hc hlink hclosed hevents⟩
    · rcases ConnectionKey.order_lt_or_lt (hd.new hx.mem).2 with hless | hless
      · exact ⟨x, keeps_old hx hd hless⟩
      · exact ⟨_, keeps_new hx hd hc hless⟩

theorem Settled.lose (h : Settled peer xs s) (hd : Distinct xs) {remote : Option Proc}
    {reason : String} (hc : c ∈ s.carrier.closed) (hremote : remote = none ∨ remote = some peer) :
    Settled peer xs (s.step peer (.lose c remote reason)) := by
  rcases h.none_or_keeps with ⟨-, -, hclosed, -⟩ | ⟨x, hx⟩
  · rw [hclosed] at hc
    cases hc
  · obtain ⟨l, hlink, hl, hkey⟩ := hx.link
    have hmem : c ∈ (xs.erase x).map Prod.fst := hx.closed.mem_iff.mp hc
    obtain ⟨y, hy, hyc⟩ := List.mem_map.mp hmem
    have hdialing : (s.table.peer peer).dialing ≠ some c :=
      hyc ▸ h.dialing y (List.mem_of_mem_erase hy)
    have howner : ∀ p, s.table.ownerOf? c = some p → p = peer :=
      hyc ▸ h.owner y (List.mem_of_mem_erase hy)
    have hother : ∀ l, (s.table.peer peer).link = some l → l.connection ≠ c := by
      intro l' hl' heq
      rw [hlink] at hl'
      cases hl'
      exact hx.open hd (hl ▸ heq ▸ hc)
    obtain ⟨t, hlost, hpeer, howners⟩ := PeerTable.onLost_retired howner hremote
      hdialing hother reason
    have hstep : s.step peer (.lose c remote reason) = { s with table := t } := by
      simp only [step, hlost, List.append_nil]
    rw [hstep]
    refine ⟨?_, fun y hy p hp => h.owner y hy p (howners y.1 p hp), .inr ⟨x, ?_⟩⟩
    · rw [hpeer]
      exact h.dialing
    · exact ⟨hx.mem, hx.least, ⟨l, by rw [hpeer, hlink], hl, hkey⟩, hx.closed, hx.events⟩

theorem Settled.advance (h : Settled peer xs s) {net : Transport} :
    Settled peer xs (s.step peer (.advance net)) := by
  refine ⟨h.dialing, h.owner, ?_⟩
  rcases h.none_or_keeps with hnone | ⟨x, hx⟩
  · exact .inl hnone
  · exact .inr ⟨x, hx.mem, hx.least, hx.link, hx.closed, hx.events⟩

theorem arrivals_append_singleton :
    arrivals (actions ++ [a]) = arrivals actions ++ arrivals [a] := List.filterMap_append ..

theorem run_append_singleton : s.run peer (actions ++ [a]) = (s.run peer actions).step peer a := by
  simp [run, List.foldl_append]

theorem proper_append_singleton : Proper peer s (actions ++ [a]) ↔
    Proper peer s actions ∧ Permitted peer (s.run peer actions) a := by
  induction actions generalizing s with
  | nil => simp [Proper, run]
  | cons b actions ih =>
    rw [List.cons_append, Proper, Proper, ih, and_assoc]
    rfl

/-- A side that has not heard of its peer. -/
structure Fresh (peer : Proc) (s : Side) : Prop where
  link : (s.table.peer peer).link = none
  closed : s.carrier.closed = []
  events : s.events = []

theorem settled_run (h : Fresh peer s) (hrun : Proper peer s actions)
    (hd : Distinct (arrivals actions)) : Settled peer (arrivals actions) (s.run peer actions) := by
  induction actions using List.reverseRecOn with
  | nil => exact ⟨by simp [arrivals], by simp [arrivals], .inl ⟨rfl, h.link, h.closed, h.events⟩⟩
  | append_singleton actions a ih =>
    obtain ⟨hfront, ha⟩ := proper_append_singleton.mp hrun
    rw [run_append_singleton]
    rw [arrivals_append_singleton] at hd ⊢
    cases a with
    | establish c key => exact (ih hfront hd.left).establish hd ha
    | lose c remote reason =>
      rw [show arrivals [.lose c remote reason] = [] from rfl, List.append_nil] at hd ⊢
      exact (ih hfront hd).lose hd ha.1 ha.2
    | advance net =>
      rw [show arrivals [.advance net] = [] from rfl, List.append_nil] at hd ⊢
      exact (ih hfront hd).advance

/-- The peer is reached over `kept`, each of the others was closed once, and the peer came up once
and did not go down. -/
structure Chooses (peer : Proc) (kept : ConnectionId) (others : List ConnectionId) (s : Side) :
    Prop where
  link : ((s.table.peer peer).link.map (·.connection)) = some kept
  closed : s.carrier.closed.Perm others
  events : s.events = [.peerUp peer]

end Side

/-- A socket between two processes: its number at either end, and its addresses as the one end sees
them. -/
structure Crossing where
  near : ConnectionId
  far : ConnectionId
  key : ConnectionKey
  deriving DecidableEq, Repr

namespace Crossing
open Side (Action Distinct Fresh Proper Chooses arrivals)

variable {a b peer : Proc} {s n f : Side} {u v : Crossing} {sockets : List Crossing}
  {actions nearby distant : List Action}

def atNear (u : Crossing) : ConnectionId × ConnectionKey := (u.near, u.key)

def atFar (u : Crossing) : ConnectionId × ConnectionKey := (u.far, u.key.reversed)

/-- The first of the sockets. -/
def Least (sockets : List Crossing) (u : Crossing) : Prop :=
  u ∈ sockets ∧ ∀ v ∈ sockets, v ≠ u → u.key.order v.key = .lt

theorem Least.unique (hu : Least sockets u) (hv : Least sockets v) : u = v := by
  by_contra hne
  have huv : u.key.order v.key = .lt := hu.2 v hv.1 (Ne.symm hne)
  have hvu : v.key.order u.key = .lt := hv.2 u hu.1 hne
  have hself : u.key.order u.key = .eq := ConnectionKey.order_eq_iff.mpr rfl
  rw [ConnectionKey.order_trans huv hvu] at hself
  cases hself

/-- An end that has heeded all sockets keeps the first of them. -/
theorem chooses_least (see : Crossing → ConnectionId × ConnectionKey) (hne : sockets ≠ [])
    (hids : (sockets.map fun u => (see u).1).Nodup)
    (hkeys : (sockets.map (·.key.canonical)).Nodup)
    (hplain : ∀ u ∈ sockets, u.key.isSelfLoop = false)
    (hsee : ∀ u, (see u).2.canonical = u.key.canonical ∧ (see u).2.isSelfLoop = u.key.isSelfLoop)
    (hs : Fresh peer s) (hrun : Proper peer s actions)
    (hall : (arrivals actions).Perm (sockets.map see)) : ∃ u, Least sockets u ∧
      Chooses peer (see u).1 ((sockets.erase u).map fun v => (see v).1) (s.run peer actions) := by
  have hd : Distinct (arrivals actions) := by
    refine ⟨?_, ?_, ?_⟩
    · rw [(hall.map Prod.fst).nodup_iff, List.map_map]
      exact hids
    · rw [(hall.map fun x => x.2.canonical).nodup_iff, List.map_map]
      simpa only [Function.comp_def, (hsee _).1] using hkeys
    · intro x hx
      obtain ⟨u, hu, rfl⟩ := List.mem_map.mp (hall.mem_iff.mp hx)
      rw [(hsee u).2]
      exact hplain u hu
  rcases (Side.settled_run hs hrun hd).none_or_keeps with ⟨hnone, -⟩ | ⟨x, hx⟩
  · rw [hnone] at hall
    exact (hne (List.map_eq_nil_iff.mp hall.nil_eq.symm)).elim
  · obtain ⟨u, hu, rfl⟩ := List.mem_map.mp (hall.mem_iff.mp hx.mem)
    refine ⟨u, ⟨hu, fun v hv hvu => ?_⟩, ?_, ?_, hx.events⟩
    · have hne : see v ≠ see u := by
        intro heq
        have := List.inj_on_of_nodup_map hids hv hu (congrArg Prod.fst heq)
        exact hvu this
      have hless := hx.least (see v) (hall.mem_iff.mpr (List.mem_map_of_mem hv)) hne
      rw [ConnectionKey.order, (hsee u).1, (hsee v).1] at hless
      exact hless
    · obtain ⟨l, hlink, hl, -⟩ := hx.link
      rw [hlink, Option.map_some, hl]
    · have hrest : ((arrivals actions).erase (see u)).Perm ((sockets.erase u).map see) := by
        have hsplit : (sockets.map see).Perm (see u :: (sockets.erase u).map see) :=
          (List.perm_cons_erase hu).map see
        have herased := (hall.trans hsplit).erase (see u)
        rwa [List.erase_cons_head] at herased
      have hclosed := hx.closed.trans (hrest.map Prod.fst)
      rwa [List.map_map] at hclosed

/-- Both ends keep the same socket, the first of all, and close every other one once. -/
theorem duplicates_agree (hne : sockets ≠ []) (hnear : (sockets.map (·.near)).Nodup)
    (hfar : (sockets.map (·.far)).Nodup) (hkeys : (sockets.map (·.key.canonical)).Nodup)
    (hplain : ∀ u ∈ sockets, u.key.isSelfLoop = false)
    (hn : Fresh b n) (hf : Fresh a f) (hnrun : Proper b n nearby) (hfrun : Proper a f distant)
    (hnall : (arrivals nearby).Perm (sockets.map atNear))
    (hfall : (arrivals distant).Perm (sockets.map atFar)) :
    ∃ u, Least sockets u ∧
      Chooses b u.near ((sockets.erase u).map (·.near)) (n.run b nearby) ∧
      Chooses a u.far ((sockets.erase u).map (·.far)) (f.run a distant) := by
  obtain ⟨u, hu, hnu⟩ := chooses_least atNear hne hnear hkeys hplain (fun u => ⟨rfl, rfl⟩)
    hn hnrun hnall
  obtain ⟨v, hv, hfv⟩ := chooses_least atFar hne hfar hkeys hplain
    (fun u => ⟨ConnectionKey.canonical_reversed, ConnectionKey.isSelfLoop_reversed⟩) hf hfrun hfall
  have huv : u = v := hu.unique hv
  exact ⟨u, hu, hnu, huv ▸ hfv⟩

/-- Both processes have dialed, and each end heeds the two connections in an order of its own. -/
theorem crossing_dials_agree : let a : Proc := ⟨"a", 7000, 0⟩
    let b : Proc := ⟨"b", 7001, 0⟩
    let first : Crossing := ⟨2, 3, .v4 [127, 0, 0, 1] 50001, .v4 [127, 0, 0, 1] 7001⟩
    let second : Crossing := ⟨3, 2, .v4 [127, 0, 0, 1] 7000, .v4 [127, 0, 0, 1] 50002⟩
    let conn (here peer : Proc) (c : ConnectionId) (key : ConnectionKey) : Connection :=
      { Connection.dialing c here peer {} with phase := .connected, key := some key }
    let network : Network := .isolated 49152
    let n : Side := ⟨{ here := a }, ⟨{ here := a, network, connections :=
      [(2, conn a b 2 first.key), (3, conn a b 3 second.key)] }, []⟩, []⟩
    let f : Side := ⟨{ here := b }, ⟨{ here := b, network, connections :=
      [(2, conn b a 2 second.key.reversed), (3, conn b a 3 first.key.reversed)] }, []⟩, []⟩
    let nearby : List Action := [.establish 2 first.key, .establish 3 second.key,
      .lose 2 (some b) "closed by peer"]
    let distant : List Action := [.establish 2 second.key.reversed,
      .establish 3 first.key.reversed]
    Least [first, second] second ∧ Chooses b 3 [2] (n.run b nearby) ∧
      Chooses a 2 [3] (f.run a distant) := by
  intro a b first second conn network n f nearby distant
  have hsecond : Least [first, second] second := ⟨by decide, by decide⟩
  obtain ⟨u, hu, hn, hf⟩ := @duplicates_agree a b n f [first, second] nearby distant
    (by decide) (by decide) (by decide) (by decide) (by decide) ⟨by decide, rfl, rfl⟩
    ⟨by decide, rfl, rfl⟩ (by decide) (by decide) (by decide) (by decide)
  obtain rfl : u = second := hu.unique hsecond
  exact ⟨hu, hn, hf⟩

end Crossing

end Multicast
