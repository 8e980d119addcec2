import Mathlib.Data.List.Perm.Basic
import Multicast.Order.Exchange
import Multicast.Proofs.Causal.Calls

/-! An exchange of causal layers is a group of them: its layers take the same steps, and the packets
on its links are those that are on their way in the group. -/
namespace Multicast

/-- Where a link is among the others. -/
def PacketLink.key {π : Type} (k : PacketLink π) : List Nat := [k.source, k.target]

namespace Exchange
open scoped List

/-- What is done with an exchange of causal layers. Processes are named by their place. -/
inductive Move where
  | init (i : Nat) (members : List Proc)
  | view (i : Nat) (members : List Proc)
  | send (i : Nat) (payload : Bytes) (destinations : List Proc)
  /-- A packet is taken from a link and handed to its target. -/
  | deliver (link pick : Nat)
  /-- A packet is handed to its target and stays on its link. -/
  | copy (link pick : Nat)
  | drop (source target : Nat)
  deriving DecidableEq, Repr

/-- What a process asks of its own layer. -/
def Move.own? (processes : List Proc) : Move → Option (Proc × CausalCall)
  | init i members => processes[i]?.map (·, .init members)
  | view i members => processes[i]?.map (·, .view members)
  | send i payload destinations => processes[i]?.map (·, .send payload destinations)
  | _ => none

def move (x : Exchange CausalLayer CausalPacket) : Move → Exchange CausalLayer CausalPacket
  | .init i members => (x.act i (·.call (.init members))).2
  | .view i members => (x.act i (·.call (.view members))).2
  | .send i payload destinations => (x.act i (·.call (.send payload destinations))).2
  | .deliver link pick =>
    match x.choose? link pick with
    | some a => ((x.remove a).arrive CausalLayer.deliver a).2
    | none => x
  | .copy link pick =>
    match x.choose? link pick with
    | some a => (x.arrive CausalLayer.deliver a).2
    | none => x
  | .drop source target => (x.drop source target).2

def run (x : Exchange CausalLayer CausalPacket) (moves : List Move) :
    Exchange CausalLayer CausalPacket := moves.foldl move x

/-- A packet between two processes that are named by their place. -/
def flight? (processes : List Proc) (source target : Nat) (packet : CausalPacket) :
    Option Flight := do
  return ⟨← processes[source]?, ← processes[target]?, packet⟩

/-- The packets on some links. -/
def flights (processes : List Proc) (links : List (PacketLink CausalPacket)) : List Flight :=
  links.flatMap fun k => k.packets.filterMap (flight? processes k.source k.target)

/-- The links of an exchange ascend, so that no two are between the same processes. -/
def Ordered (links : List (PacketLink CausalPacket)) : Prop :=
  (links.map (·.key)).Pairwise (lexicographic · · = .lt)

/-- The layers of the exchange are those of the group, and have delivered the same. -/
structure Agrees (x : Exchange CausalLayer CausalPacket) (g : Group) : Prop where
  distinct : x.processes.Nodup
  layers : x.layers = x.processes.map g.layers
  delivered : x.delivered = x.processes.map fun p => (g.output p).delivered

/-- The same packets are on their way, too. -/
structure Mirrors (x : Exchange CausalLayer CausalPacket) (g : Group) : Prop extends
    Agrees x g where
  ordered : Ordered x.links
  flying : g.flying.Perm (flights x.processes x.links)

variable {x : Exchange CausalLayer CausalPacket} {g : Group} {ps : List Proc} {p : Proc}
  {i source target : Nat} {packet : CausalPacket} {f : Flight} {fs : List Flight}
  {ks : List (PacketLink CausalPacket)} {a : Arrival CausalPacket} {c : CausalCall}

/-! ### Links -/

theorem key_enqueue : (enqueue source target packet ks).map (·.key) =
    insertAscending lexicographic [source, target] (ks.map (·.key)) := by
  induction ks with
  | nil => rfl
  | cons k ks ih =>
    simp only [enqueue, List.map_cons, insertAscending, PacketLink.key] at ih ⊢
    cases h : lexicographic [source, target] [k.source, k.target] with
    | lt => rfl
    | eq => rw [lexicographic_eq_iff.mp h]; rfl
    | gt => rw [← ih]; rfl

theorem ordered_enqueue (h : Ordered ks) : Ordered (enqueue source target packet ks) := by
  rw [Ordered, key_enqueue]
  refine pairwise_insertAscending (fun _ _ h => h) (fun a b c h h' => ?_) (fun a b h => ?_)
    (fun _ _ _ => lexicographic_trans) h
  · rwa [lexicographic_eq_iff.mp h]
  · rw [← lexicographic_swap, h]
    rfl

theorem flights_cons {k : PacketLink CausalPacket} : flights ps (k :: ks) =
    k.packets.filterMap (flight? ps k.source k.target) ++ flights ps ks := List.flatMap_cons

theorem filterMap_single {α β : Type} {h : α → Option β} {b : α} :
    [b].filterMap h = (h b).toList := by
  cases hb : h b <;> simp [hb]

/-- A packet on a link is one more on its way. -/
theorem flights_enqueue : (flights ps (enqueue source target packet ks)).Perm
    (flights ps ks ++ (flight? ps source target packet).toList) := by
  have hnew : flights ps [⟨source, target, [packet]⟩] =
      (flight? ps source target packet).toList := by
    rw [flights_cons, filterMap_single]
    exact List.append_nil _
  induction ks with
  | nil => exact .of_eq hnew
  | cons k ks ih =>
    simp only [enqueue]
    split
    · rw [flights_cons, filterMap_single]
      exact List.perm_append_comm
    · rename_i h
      obtain ⟨rfl, rfl⟩ : source = k.source ∧ target = k.target := by
        simpa using lexicographic_eq_iff.mp h
      rw [flights_cons, flights_cons, List.filterMap_append, filterMap_single, List.append_assoc,
        List.append_assoc]
      exact List.perm_append_comm.append_left _
    · rw [flights_cons, flights_cons, List.append_assoc]
      exact ih.append_left _

theorem carry_links_one {s : Outgoing CausalPacket} (hx : Ordered x.links)
    (hp : x.processes[i]? = some p) : Ordered (x.carry i [s]).links ∧
      (flights x.processes (x.carry i [s]).links).Perm (flights x.processes x.links ++
        [⟨p, s.destination, s.packet⟩].filter (·.target ∈ x.processes)) := by
  simp only [carry, List.foldl_cons, List.foldl_nil]
  cases htarget : x.processes.idxOf? s.destination with
  | none =>
    have habsent : s.destination ∉ x.processes := List.idxOf?_eq_none_iff.mp htarget
    simp [habsent, hx]
  | some target =>
    obtain ⟨hlt, hdestination, -⟩ := List.idxOf?_eq_some_iff.mp htarget
    have hmem : s.destination ∈ x.processes := hdestination ▸ List.getElem_mem hlt
    have hflight : flight? x.processes i target s.packet =
        some ⟨p, s.destination, s.packet⟩ := by
      simp only [flight?, hp, List.getElem?_eq_getElem hlt, hdestination]
      rfl
    refine ⟨ordered_enqueue hx, flights_enqueue.trans (.of_eq ?_)⟩
    simp [hflight, hmem]

/-- Of what a process puts out, the packets for processes of the exchange are on their way. -/
theorem carry_links (hx : Ordered x.links) (hp : x.processes[i]? = some p)
    (sends : List (Outgoing CausalPacket)) : Ordered (x.carry i sends).links ∧
      (flights x.processes (x.carry i sends).links).Perm (flights x.processes x.links ++
        (sends.map fun s => ⟨p, s.destination, s.packet⟩).filter (·.target ∈ x.processes)) := by
  induction sends generalizing x with
  | nil => exact ⟨hx, .of_eq (List.append_nil _).symm⟩
  | cons s sends ih =>
    obtain ⟨hfirst, hone⟩ := carry_links_one (s := s) hx hp
    obtain ⟨hordered, hrest⟩ := ih hfirst hp
    let posted (sends : List (Outgoing CausalPacket)) : List Flight :=
      (sends.map fun s => ⟨p, s.destination, s.packet⟩).filter (·.target ∈ x.processes)
    refine ⟨hordered, ?_⟩
    calc flights x.processes ((x.carry i [s]).carry i sends).links
        ~ flights x.processes (x.carry i [s]).links ++ posted sends := hrest
      _ ~ flights x.processes x.links ++ posted [s] ++ posted sends := hone.append_right _
      _ = flights x.processes x.links ++ (posted [s] ++ posted sends) := List.append_assoc ..
      _ = flights x.processes x.links ++ posted (s :: sends) :=
          congrArg _ (List.filter_append ..).symm

theorem flights_append {ls : List (PacketLink CausalPacket)} :
    flights ps (ks ++ ls) = flights ps ks ++ flights ps ls := List.flatMap_append

/-- A link without packets counts for nothing. -/
theorem flights_filter : flights ps (ks.filter (!·.packets.isEmpty)) = flights ps ks := by
  induction ks with
  | nil => rfl
  | cons k ks ih =>
    by_cases h : k.packets = []
    · rw [List.filter_cons_of_neg (by simp [h]), flights_cons, h, ih]
      rfl
    · rw [List.filter_cons_of_pos (by simpa using h), flights_cons, flights_cons, ih]

theorem Ordered.filter {keep : PacketLink CausalPacket → Bool} (h : Ordered ks) :
    Ordered (ks.filter keep) := List.Pairwise.sublist (List.filter_sublist.map _) h

/-- No two links are between the same processes. -/
theorem Ordered.key_ne {before after : List (PacketLink CausalPacket)}
    {k l : PacketLink CausalPacket} (h : Ordered (before ++ k :: after))
    (hl : l ∈ before ∨ l ∈ after) : l.key ≠ k.key := by
  intro hsame
  have hself : lexicographic k.key k.key = .eq := lexicographic_eq_iff.mpr rfl
  rw [Ordered, List.map_append, List.map_cons, List.pairwise_append] at h
  rcases hl with hl | hl
  · have hlt := h.2.2 l.key (List.mem_map_of_mem hl) k.key List.mem_cons_self
    rw [hsame, hself] at hlt
    cases hlt
  · have hlt := (List.pairwise_cons.mp h.2.1).1 l.key (List.mem_map_of_mem hl)
    rw [hsame, hself] at hlt
    cases hlt

/-! ### Taking a packet from its link -/

theorem choose?_eq_some {link pick : Nat} (ha : x.choose? link pick = some a) :
    ∃ k ∈ x.links, a.source = k.source ∧ a.target = k.target ∧
      k.packets[a.place]? = some a.packet := by
  simp only [choose?, Option.bind_eq_bind, Option.bind_eq_some_iff] at ha
  obtain ⟨k, hk, packet, hpacket, ha⟩ := ha
  cases ha
  exact ⟨k, List.mem_of_getElem? hk, rfl, rfl, hpacket⟩

/-- A link without the packet that is taken, if it is taken from there. -/
def shorten (a : Arrival CausalPacket) (k : PacketLink CausalPacket) : PacketLink CausalPacket :=
  if k.source = a.source && k.target = a.target then
    { k with packets := k.packets.eraseIdx a.place }
  else k

theorem remove_eq : (x.remove a).links =
    (x.links.map (shorten a)).filter (!·.packets.isEmpty) := rfl

theorem ordered_remove (h : Ordered x.links) : Ordered (x.remove a).links := by
  have hkeys : (x.links.map (shorten a)).map (·.key) = x.links.map (·.key) := by
    rw [List.map_map]
    refine List.map_congr_left fun k _ => ?_
    simp only [Function.comp_apply, shorten]
    split <;> rfl
  rw [remove_eq]
  refine Ordered.filter ?_
  rwa [Ordered, hkeys]

theorem flights_shorten {k : PacketLink CausalPacket} (hsource : a.source = k.source)
    (htarget : a.target = k.target) (hpacket : k.packets[a.place]? = some a.packet) :
    (flights ps [k]).Perm
      ((flight? ps a.source a.target a.packet).toList ++ flights ps [shorten a k]) := by
  obtain ⟨hplace, hpacket⟩ := List.getElem?_eq_some_iff.mp hpacket
  have hperm := (List.getElem_cons_eraseIdx_perm hplace).symm.filterMap
    (flight? ps k.source k.target)
  rw [hpacket, ← List.singleton_append, List.filterMap_append, filterMap_single] at hperm
  have hshorter : shorten a k = { k with packets := k.packets.eraseIdx a.place } :=
    if_pos (by simp [hsource, htarget])
  rw [flights_cons, flights_cons, hshorter, hsource, htarget, ← List.append_assoc]
  exact hperm.append_right _

/-- A packet that is taken from its link is one less on its way. -/
theorem flights_remove {link pick : Nat} (hx : Ordered x.links)
    (ha : x.choose? link pick = some a) : (flights x.processes x.links).Perm
      ((flight? x.processes a.source a.target a.packet).toList ++
        flights x.processes (x.remove a).links) := by
  obtain ⟨k, hk, hsource, htarget, hpacket⟩ := choose?_eq_some ha
  obtain ⟨before, after, hlinks⟩ := List.append_of_mem hk
  have hothers : ∀ l, l ∈ before ∨ l ∈ after → shorten a l = l := by
    intro l hl
    refine if_neg fun hsame => (hlinks ▸ hx).key_ne hl ?_
    simp only [Bool.and_eq_true, decide_eq_true_eq] at hsame
    rw [PacketLink.key, PacketLink.key, hsame.1, hsame.2, hsource, htarget]
  have hshortened : x.links.map (shorten a) = before ++ ([shorten a k] ++ after) := by
    rw [hlinks, List.map_append, List.map_cons,
      List.map_congr_left fun l hl => hothers l (.inl hl),
      List.map_congr_left fun l hl => hothers l (.inr hl), List.map_id', List.map_id']
    rfl
  have hleft : flights x.processes (x.remove a).links = flights x.processes before ++
      (flights x.processes [shorten a k] ++ flights x.processes after) := by
    rw [remove_eq, flights_filter, hshortened, flights_append, flights_append]
  let taken := (flight? x.processes a.source a.target a.packet).toList
  calc flights x.processes x.links
      = flights x.processes before ++ (flights x.processes [k] ++ flights x.processes after) := by
        rw [hlinks, flights_append, ← List.singleton_append, flights_append]
    _ ~ flights x.processes before ++ (taken ++ flights x.processes [shorten a k] ++
          flights x.processes after) :=
        ((flights_shorten hsource htarget hpacket).append_right _).append_left _
    _ = flights x.processes before ++ (taken ++ (flights x.processes [shorten a k] ++
          flights x.processes after)) := by rw [List.append_assoc taken]
    _ ~ taken ++ (flights x.processes before ++ (flights x.processes [shorten a k] ++
          flights x.processes after)) := List.perm_append_comm_assoc ..
    _ = taken ++ flights x.processes (x.remove a).links := by rw [hleft]

theorem drop_links (hx : Ordered x.links) (source target : Nat) :
    Ordered (x.drop source target).2.links ∧
    ∃ dropped, (flights x.processes x.links).Perm
      (flights x.processes (x.drop source target).2.links ++ dropped) := by
  let between (k : PacketLink CausalPacket) : Bool := k.source = source && k.target = target
  have hlinks : (x.drop source target).2.links = x.links.filter (!between ·) := by
    simp only [drop, List.partition_eq_filter_filter]
    rfl
  have hperm := ((List.filter_append_perm between x.links).symm.trans
    List.perm_append_comm).flatMap_right fun k =>
      k.packets.filterMap (flight? x.processes k.source k.target)
  rw [hlinks]
  exact ⟨hx.filter, flights x.processes (x.links.filter between),
    hperm.trans (.of_eq flights_append)⟩

/-! ### Steps of the layers -/

/-- Where one process of a list changes, one entry of a list of values does. -/
theorem modify_map {α : Type} {f f' : Proc → α} {h : α → α} (hps : ps.Nodup)
    (hp : ps[i]? = some p) (hself : f' p = h (f p)) (hother : ∀ q, q ≠ p → f' q = f q) :
    (ps.map f).modify i h = ps.map f' := by
  refine List.ext_getElem? fun j => ?_
  rw [List.getElem?_modify, List.getElem?_map, List.getElem?_map]
  cases hq : ps[j]? with
  | none => rfl
  | some q =>
    by_cases hij : i = j
    · subst hij
      obtain rfl : p = q := Option.some.inj (hp.symm.trans hq)
      simp [hself]
    · have hne : q ≠ p := by
        rintro rfl
        have hlt := (List.getElem?_eq_some_iff.mp hp).1
        exact hij ((List.getElem?_inj hlt hps).mp (hp.trans hq.symm))
      simp [hij, hother q hne]

theorem Agrees.layer (h : Agrees x g) (hp : x.processes[i]? = some p) :
    x.layers[i]? = some (g.layers p) := by
  rw [h.layers, List.getElem?_map, hp]
  rfl

theorem processes_act {ε : Type} {op : CausalLayer → Except ε (CausalOutput × CausalLayer)} :
    (x.act i op).2.processes = x.processes := by
  unfold act
  split
  · rfl
  · split <;> rfl

/-- What is on its way in the group alone can get lost, which neither layer nor log tells. -/
theorem mirrors_of_lost (h : Agrees x g) (hx : Ordered x.links)
    (hf : g.flying.Perm (flights x.processes x.links ++ fs)) :
    Mirrors x (g.run (fs.map .lose)) := by
  induction fs generalizing g with
  | nil => exact ⟨h, hx, (List.append_nil (flights x.processes x.links)) ▸ hf⟩
  | cons f fs ih =>
    have herase : (g.without f).flying.Perm (flights x.processes x.links ++ fs) := by
      have hperm := (hf.trans List.perm_middle).erase f
      rwa [List.erase_cons_head] at hperm
    exact ih ⟨h.distinct, h.layers, h.delivered⟩ herase

theorem act_ok {ε : Type} {op : CausalLayer → Except ε (CausalOutput × CausalLayer)}
    {l m : CausalLayer} {o : CausalOutput} (hl : x.layers[i]? = some l) (ho : op l = .ok (o, m)) :
    (x.act i op).2 = { x with
      layers := x.layers.set i m
      delivered := x.delivered.modify i (· ++ o.delivered) }.carry i o.sends := by
  simp only [act, hl, ho]

theorem Agrees.act {ε : Type} {op : CausalLayer → Except ε (CausalOutput × CausalLayer)}
    {l : CausalLayer} {o : CausalOutput} (h : Agrees x g) (hp : x.processes[i]? = some p)
    (ho : op (g.layers p) = .ok (o, l)) (hc : (g.layers p).call c = .ok (o, l)) :
    Agrees (x.act i op).2 (g.call p c) := by
  rw [act_ok (h.layer hp) ho]
  refine ⟨h.distinct, ?_, ?_⟩
  · change x.layers.set i l = _
    rw [List.set_eq_modify, h.layers, Group.call_of_ok hc]
    exact modify_map h.distinct hp Group.absorb_layers_self fun q => Group.absorb_layers_of_ne
  · change x.delivered.modify i (· ++ o.delivered) = _
    rw [h.delivered]
    refine modify_map h.distinct hp ?_ fun q hq => ?_
    · rw [Group.output_call hc, if_pos rfl, Output.append_delivered]
    · rw [Group.output_call hc, if_neg hq, Output.append_empty]

/-- What the process at a place asks of its layer, it asks in the group. The packets that it puts
out for processes outside the exchange are lost. -/
theorem mirrors_act {ε : Type} (op : CausalLayer → Except ε (CausalOutput × CausalLayer))
    (h : Mirrors x g) (hp : x.processes[i]? = some p)
    (hop : ∀ r, op (g.layers p) = .ok r ↔ (g.layers p).call c = .ok r) :
    ∃ lost : List Flight, Mirrors (x.act i op).2 ((g.call p c).run (lost.map .lose)) := by
  have hlayer := h.toAgrees.layer hp
  cases hr : (g.layers p).call c with
  | error e =>
    have hx : (x.act i op).2 = x := by
      cases ho : op (g.layers p) with
      | error e' => simp only [Exchange.act, hlayer, ho]
      | ok r => cases hr.symm.trans ((hop r).mp ho)
    rw [hx, Group.call_of_error hr]
    exact ⟨[], h⟩
  | ok r =>
    obtain ⟨o, l⟩ := r
    have ho := (hop (o, l)).mpr hr
    have hx := act_ok hlayer ho
    obtain ⟨hordered, hlinks⟩ := carry_links (x := { x with
      layers := x.layers.set i l
      delivered := x.delivered.modify i (· ++ o.delivered) }) h.ordered hp o.sends
    rw [← hx] at hordered hlinks
    let inside (f : Flight) : Bool := f.target ∈ x.processes
    let posted := Group.posted p o
    refine ⟨posted.filter (!inside ·), mirrors_of_lost (h.toAgrees.act hp ho hr) hordered ?_⟩
    rw [processes_act]
    calc (g.call p c).flying
        = g.flying ++ posted := by simp only [Group.call, hr, posted]
      _ ~ flights x.processes x.links ++ posted := h.flying.append_right _
      _ ~ flights x.processes x.links ++ (posted.filter inside ++ posted.filter (!inside ·)) :=
          (List.filter_append_perm inside posted).symm.append_left _
      _ = flights x.processes x.links ++ posted.filter inside ++ posted.filter (!inside ·) :=
          (List.append_assoc ..).symm
      _ ~ flights x.processes (x.act i op).2.links ++ posted.filter (!inside ·) :=
          hlinks.symm.append_right _

theorem act_none {ε : Type} {op : CausalLayer → Except ε (CausalOutput × CausalLayer)}
    (h : Mirrors x g) (hp : x.processes[i]? = none) : (x.act i op).2 = x := by
  have hlayer : x.layers[i]? = none := by
    rw [h.layers, List.getElem?_map, hp]
    rfl
  simp only [act, hlayer]

/-- A packet that was on its way between two processes of the exchange comes in. -/
theorem mirrors_arrive (h : Mirrors x g)
    (hf : flight? x.processes a.source a.target a.packet = some f) : ∃ lost : List Flight,
      Mirrors (x.arrive CausalLayer.deliver a).2 ((g.handOver f).run (lost.map .lose)) := by
  obtain ⟨p, hp, q, hq, rfl⟩ : ∃ p, x.processes[a.source]? = some p ∧
      ∃ q, x.processes[a.target]? = some q ∧ f = ⟨p, q, a.packet⟩ := by
    simp only [flight?, Option.bind_eq_bind, Option.bind_eq_some_iff] at hf
    obtain ⟨p, hp, q, hq, hf⟩ := hf
    exact ⟨p, hp, q, hq, (Option.some.inj hf).symm⟩
  simp only [arrive, hp]
  exact mirrors_act _ h hq fun _ => Fallible.mapError_eq_ok.symm

/-- A packet between other processes is not handed over. -/
theorem arrive_none (h : Mirrors x g)
    (hf : flight? x.processes a.source a.target a.packet = none) :
    (x.arrive CausalLayer.deliver a).2 = x := by
  simp only [arrive]
  cases hp : x.processes[a.source]? with
  | none => rfl
  | some p =>
    refine act_none h ?_
    cases hq : x.processes[a.target]? with
    | none => rfl
    | some q => simp [flight?, hp, hq] at hf

/-! ### Moves -/

theorem own?_lose {lost : List Flight} :
    (lost.map Group.Action.lose).filterMap Group.Action.own? = [] := by
  simp [List.filterMap_map, Group.Action.own?]

/-- What is asked of the layer at a place is asked in the group, or the place is outside. -/
theorem mirrors_own (h : Mirrors x g) {b : Proc → Group.Action}
    (hb : ∀ p, (b p).own? = some (p, c)) : ∃ actions,
      Mirrors (x.act i (·.call c)).2 (g.run actions) ∧
        actions.filterMap Group.Action.own? = (x.processes[i]?.map (·, c)).toList := by
  cases hp : x.processes[i]? with
  | none =>
    rw [act_none h hp]
    exact ⟨[], h, rfl⟩
  | some p =>
    obtain ⟨lost, hlost⟩ := mirrors_act (·.call c) h hp fun _ => Iff.rfl
    have hstep : g.step (b p) = g.call p c := by
      have hown := hb p
      revert hown
      cases b p <;> rintro ⟨⟩ <;> rfl
    refine ⟨b p :: lost.map .lose, ?_, ?_⟩
    · change Mirrors _ ((g.step (b p)).run _)
      rwa [hstep]
    · rw [List.filterMap_cons_some (hb p), own?_lose]
      rfl

theorem mirrors_remove (h : Mirrors x g) {link pick : Nat} (ha : x.choose? link pick = some a)
    (hf : flight? x.processes a.source a.target a.packet = some f) :
    f ∈ g.flying ∧ Mirrors (x.remove a) (g.without f) := by
  have hflying : g.flying.Perm (f :: flights x.processes (x.remove a).links) := by
    have hperm := flights_remove h.ordered ha
    rw [hf] at hperm
    exact h.flying.trans hperm
  have herase := hflying.erase f
  rw [List.erase_cons_head] at herase
  exact ⟨hflying.mem_iff.mpr List.mem_cons_self, ⟨h.distinct, h.layers, h.delivered⟩,
    ordered_remove h.ordered, herase⟩

theorem mirrors_move (h : Mirrors x g) (m : Move) : ∃ actions, Mirrors (x.move m) (g.run actions) ∧
    actions.filterMap Group.Action.own? = (m.own? x.processes).toList := by
  cases m with
  | init i members => exact mirrors_own (b := (.init · members)) h fun _ => rfl
  | view i members => exact mirrors_own (b := (.view · members)) h fun _ => rfl
  | send i payload destinations =>
    exact mirrors_own (b := (.send · payload destinations)) h fun _ => rfl
  | deliver link pick =>
    simp only [move]
    split
    · rename_i a ha
      cases hf : flight? x.processes a.source a.target a.packet with
      | none =>
        have hperm := flights_remove h.ordered ha
        rw [hf] at hperm
        have hstill : Mirrors (x.remove a) g :=
          ⟨⟨h.distinct, h.layers, h.delivered⟩, ordered_remove h.ordered, h.flying.trans hperm⟩
        rw [arrive_none hstill hf]
        exact ⟨[], hstill, rfl⟩
      | some f =>
        obtain ⟨hmem, hstill⟩ := mirrors_remove h ha hf
        obtain ⟨lost, hlost⟩ := mirrors_arrive hstill hf
        refine ⟨.deliver f :: lost.map .lose, ?_, own?_lose⟩
        change Mirrors _ ((g.step (.deliver f)).run _)
        rwa [Group.step, if_pos hmem]
    · exact ⟨[], h, rfl⟩
  | copy link pick =>
    simp only [move]
    split
    · rename_i a ha
      cases hf : flight? x.processes a.source a.target a.packet with
      | none =>
        rw [arrive_none h hf]
        exact ⟨[], h, rfl⟩
      | some f =>
        obtain ⟨lost, hlost⟩ := mirrors_arrive h hf
        refine ⟨.copy f :: lost.map .lose, ?_, own?_lose⟩
        change Mirrors _ ((g.step (.copy f)).run _)
        rwa [Group.step, if_pos (mirrors_remove h ha hf).1]
    · exact ⟨[], h, rfl⟩
  | drop source target =>
    obtain ⟨hordered, dropped, hperm⟩ := drop_links h.ordered source target
    exact ⟨dropped.map .lose, mirrors_of_lost ⟨h.distinct, h.layers, h.delivered⟩ hordered
      (h.flying.trans hperm), own?_lose⟩

theorem processes_arrive : (x.arrive CausalLayer.deliver a).2.processes = x.processes := by
  unfold arrive
  split
  · rfl
  · exact processes_act

theorem processes_move {m : Move} : (x.move m).processes = x.processes := by
  cases m with
  | init | view | send => exact processes_act
  | deliver link pick =>
    simp only [move]
    split
    · exact processes_arrive
    · rfl
  | copy link pick =>
    simp only [move]
    split
    · exact processes_arrive
    · rfl
  | drop source target => rfl

theorem mirrors_run (h : Mirrors x g) (moves : List Move) :
    ∃ actions, Mirrors (x.run moves) (g.run actions) ∧
      actions.filterMap Group.Action.own? = moves.filterMap (Move.own? x.processes) := by
  induction moves generalizing x g with
  | nil => exact ⟨[], h, rfl⟩
  | cons m moves ih =>
    obtain ⟨first, hfirst, hown⟩ := mirrors_move h m
    obtain ⟨later, hlater, hrest⟩ := ih hfirst
    refine ⟨first ++ later, ?_, ?_⟩
    · rw [Group.run, List.foldl_append]
      exact hlater
    · rw [List.filterMap_append, hown, hrest, processes_move]
      cases hm : m.own? x.processes <;> simp [hm]

/-- Whatever is done with an exchange of causal layers that have no member list yet, a group of
layers can do the same: its processes ask the same of their layers, its layers are the same, and so
are the packets on their way and what the layers have delivered. -/
theorem exists_group_run (processes : List Proc) (window capacity : Proc → Nat)
    (hdistinct : processes.Nodup) (moves : List Move) :
    let x := (start processes fun p => .fresh p (window p) (capacity p)).run moves
    ∃ actions, Mirrors x ((Group.scattered window capacity).run actions) ∧
      actions.filterMap Group.Action.own? = moves.filterMap (Move.own? processes) := by
  have hstart : Mirrors (start processes fun p => .fresh p (window p) (capacity p))
      (Group.scattered window capacity) := {
    distinct := hdistinct
    ordered := List.Pairwise.nil
    layers := rfl
    delivered := rfl
    flying := .nil }
  exact mirrors_run hstart moves

/-- To let an exchange settle is to take packet after packet from link after link. -/
theorem settle_eq_run {link fuel : Nat} :
    let r := x.settle CausalLayer.deliver link fuel
    r.2 = x.run ((List.range' link r.1).map (.deliver · 0)) := by
  induction fuel generalizing x link with
  | zero => rfl
  | succ fuel ih =>
    simp only [settle]
    cases ha : x.choose? link 0 with
    | none => rfl
    | some a =>
      have hmove : x.move (.deliver link 0) = ((x.remove a).arrive CausalLayer.deliver a).2 := by
        simp only [move, ha]
      dsimp only
      rw [ih, List.range'_succ, List.map_cons, ← hmove]
      rfl

end Exchange

end Multicast
