import Mathlib.Data.List.Nodup
import Mathlib.Data.List.Perm.Basic
import Multicast.Proofs.Causal.Awaited
import Multicast.Proofs.Table

/-! The table of early acknowledgements as two maps that refer to each other: what is known of each
message, and the messages by the numbers they were entered under. The list that a layer keeps
stands for both. -/
namespace Multicast

/-- What is known of a message that has not arrived. -/
structure EarlyEntry where
  /-- Its number in the order in which messages were entered. -/
  arrival : Nat
  /-- The processes that acknowledged it, ascending. -/
  acked : List Proc
  deriving DecidableEq, Repr

structure EarlyIndex where
  entries : Table MessageId EarlyEntry := []
  /-- The messages by ascending number. -/
  order : Table Nat MessageId := []
  /-- How many messages were ever entered. -/
  arrivals : Nat := 0
  deriving DecidableEq, Repr

namespace EarlyIndex

/-- Drops the message with the least number. -/
def evict (t : EarlyIndex) : EarlyIndex :=
  match t.order with
  | [] => t
  | (_, id) :: order => { t with entries := t.entries.erase id, order }

/-- Enters a message under the next number. -/
def enter (t : EarlyIndex) (source : Proc) (id : MessageId) : EarlyIndex where
  entries := t.entries.put id ⟨t.arrivals, [source]⟩
  order := insertAscending (fun a b => lexicographic [a.1] [b.1]) (t.arrivals, id) t.order
  arrivals := t.arrivals + 1

def record (t : EarlyIndex) (capacity : Nat) (source : Proc) (id : MessageId) : EarlyIndex :=
  match t.entries.get? id with
  | some e =>
    { t with
      entries := t.entries.put id { e with acked := insertAscending Proc.order source e.acked } }
  | none => (if capacity ≤ t.entries.length then t.evict else t).enter source id

/-- Who acknowledged a message, and the maps without it. -/
def take (t : EarlyIndex) (id : MessageId) : List Proc × EarlyIndex :=
  match t.entries.get? id with
  | none => ([], t)
  | some e =>
    (e.acked, { t with entries := t.entries.erase id, order := t.order.erase e.arrival })

/-- Both maps describe the same messages, each under the number that it was given. -/
structure Paired (t : EarlyIndex) : Prop where
  distinct : t.entries.keys.Nodup
  ascending : t.order.Pairwise (·.1 < ·.1)
  same : ∀ n i, (n, i) ∈ t.order ↔ ∃ e, t.entries.get? i = some e ∧ e.arrival = n
  below : ∀ n i, (n, i) ∈ t.order → n < t.arrivals

/-- The two maps that a list stands for. -/
def ofList (early : List EarlyAck) (arrivals : Nat) : EarlyIndex where
  entries := early.map fun e => (e.id, ⟨e.arrival, e.acked⟩)
  order := early.map fun e => (e.arrival, e.id)
  arrivals

end EarlyIndex

/-- The entries are those of different messages, in the order of their numbers. -/
structure Numbered (early : List EarlyAck) (arrivals : Nat) : Prop where
  distinct : (early.map (·.id)).Nodup
  ascending : early.Pairwise (·.arrival < ·.arrival)
  below : ∀ e ∈ early, e.arrival < arrivals

variable {early es : List EarlyAck} {arrivals capacity : Nat} {p : Proc} {i : MessageId}
  {e f : EarlyAck} {l : CausalLayer}

namespace Numbered

theorem nil : Numbered [] arrivals := ⟨List.nodup_nil, List.Pairwise.nil, by simp⟩

theorem unique (h : Numbered early arrivals) (he : e ∈ early) (hf : f ∈ early)
    (hid : e.id = f.id) : e = f := List.inj_on_of_nodup_map h.distinct he hf hid

theorem unique_arrival (h : Numbered early arrivals) (he : e ∈ early) (hf : f ∈ early)
    (harrival : e.arrival = f.arrival) : e = f := by
  have hnodup : (early.map (·.arrival)).Nodup :=
    List.pairwise_map.mpr (h.ascending.imp Nat.ne_of_lt)
  exact List.inj_on_of_nodup_map hnodup he hf harrival

theorem filter_id (h : Numbered early arrivals) (he : e ∈ early) :
    early.filter (·.id = e.id) = [e] := by
  have hnodup : early.Nodup := List.Nodup.of_map _ h.distinct
  refine List.perm_singleton.mp
    ((List.perm_ext_iff_of_nodup (hnodup.filter _) (List.nodup_singleton e)).mpr fun f => ?_)
  rw [List.mem_filter, List.mem_singleton, decide_eq_true_iff]
  constructor
  · rintro ⟨hf, hid⟩
    exact h.unique hf he hid
  · rintro rfl
    exact ⟨he, rfl⟩

theorem sublist (h : Numbered early arrivals) (hes : es.Sublist early) : Numbered es arrivals where
  distinct := h.distinct.sublist (hes.map _)
  ascending := h.ascending.sublist hes
  below e he := h.below e (hes.subset he)

theorem drop (h : Numbered early arrivals) (n : Nat) : Numbered (early.drop n) arrivals :=
  h.sublist (List.drop_sublist n early)

theorem append (h : Numbered early arrivals) (hi : i ∉ early.map (·.id)) :
    Numbered (early ++ [⟨i, arrivals, [p]⟩]) (arrivals + 1) where
  distinct := by
    rw [List.map_append]
    exact List.Nodup.append h.distinct (List.nodup_singleton i)
      (List.disjoint_singleton.mpr hi)
  ascending := by
    refine List.pairwise_append.mpr ⟨h.ascending, List.pairwise_singleton _ _, ?_⟩
    intro e he f hf
    rw [List.mem_singleton.mp hf]
    exact h.below e he
  below e he := by
    rcases List.mem_append.mp he with he | he
    · exact Nat.lt_succ_of_lt (h.below e he)
    · rw [List.mem_singleton.mp he]
      exact Nat.lt_succ_self _

/-- Who acknowledged a message does not matter. -/
theorem map (h : Numbered early arrivals) {change : EarlyAck → EarlyAck}
    (hid : ∀ e, (change e).id = e.id) (harrival : ∀ e, (change e).arrival = e.arrival) :
    Numbered (early.map change) arrivals where
  distinct := by
    have hids : early.map ((·.id) ∘ change) = early.map (·.id) :=
      List.map_congr_left fun e _ => hid e
    rw [List.map_map, hids]
    exact h.distinct
  ascending := by
    refine List.pairwise_map.mpr (h.ascending.imp fun hlt => ?_)
    rwa [harrival, harrival]
  below e he := by
    obtain ⟨f, hf, rfl⟩ := List.mem_map.mp he
    rw [harrival]
    exact h.below f hf

end Numbered

namespace EarlyIndex

theorem keys_ofList : (ofList early arrivals).entries.keys = early.map (·.id) := by
  simp [ofList, Table.keys]

theorem get?_ofList (h : Numbered early arrivals) {entry : EarlyEntry} :
    (ofList early arrivals).entries.get? i = some entry ↔
      ∃ e ∈ early, e.id = i ∧ (⟨e.arrival, e.acked⟩ : EarlyEntry) = entry := by
  have hkeys : (ofList early arrivals).entries.keys.Nodup := by
    rw [keys_ofList]
    exact h.distinct
  rw [← Table.mem_iff_get? hkeys]
  simp [ofList]

theorem get?_ofList_eq_none :
    (ofList early arrivals).entries.get? i = none ↔ i ∉ early.map (·.id) := by
  rw [Table.get?_eq_none, keys_ofList]

theorem paired_ofList (h : Numbered early arrivals) : (ofList early arrivals).Paired where
  distinct := by
    rw [keys_ofList]
    exact h.distinct
  ascending := List.pairwise_map.mpr h.ascending
  same n i := by
    constructor
    · intro hmem
      obtain ⟨e, he, heq⟩ := List.mem_map.mp hmem
      obtain ⟨rfl, rfl⟩ := Prod.mk.inj heq
      exact ⟨_, (get?_ofList h).mpr ⟨e, he, rfl, rfl⟩, rfl⟩
    · rintro ⟨entry, hentry, rfl⟩
      obtain ⟨e, he, rfl, rfl⟩ := (get?_ofList h).mp hentry
      exact List.mem_map_of_mem he
  below n i hmem := by
    obtain ⟨e, he, heq⟩ := List.mem_map.mp hmem
    obtain ⟨rfl, rfl⟩ := Prod.mk.inj heq
    exact h.below e he

/-! ### One operation -/

/-- A message that arrives is dropped from both maps. -/
theorem take_ofList (h : Numbered early arrivals) : (ofList early arrivals).take i =
    ((early.filter (·.id = i)).flatMap (·.acked),
      ofList (early.filter (·.id ≠ i)) arrivals) := by
  cases hi : (ofList early arrivals).entries.get? i with
  | none =>
    have hnew := get?_ofList_eq_none.mp hi
    have hother : ∀ e ∈ early, e.id ≠ i := fun e he hid => hnew (hid ▸ List.mem_map_of_mem he)
    have hkept : early.filter (·.id ≠ i) = early :=
      List.filter_eq_self.mpr fun e he => decide_eq_true (hother e he)
    have hnone : early.filter (·.id = i) = [] :=
      List.filter_eq_nil_iff.mpr fun e he h => hother e he (of_decide_eq_true h)
    rw [take, hi, hnone, hkept]
    rfl
  | some entry =>
    obtain ⟨e, he, rfl, rfl⟩ := (get?_ofList h).mp hi
    have horder : (ofList early arrivals).order.erase e.arrival =
        (early.filter (·.id ≠ e.id)).map fun e => (e.arrival, e.id) := by
      rw [Table.erase, ofList, List.filter_map]
      congr 1
      refine List.filter_congr fun f hf => decide_eq_decide.mpr (not_congr ?_)
      constructor
      · intro harrival
        exact congrArg EarlyAck.id (h.unique_arrival hf he harrival)
      · intro hid
        exact congrArg EarlyAck.arrival (h.unique hf he hid)
    have hentries : (ofList early arrivals).entries.erase e.id =
        (early.filter (·.id ≠ e.id)).map fun e => (e.id, ⟨e.arrival, e.acked⟩) := by
      rw [Table.erase, ofList, List.filter_map]
      rfl
    rw [take, hi, h.filter_id he, List.flatMap_singleton]
    dsimp only
    rw [horder, hentries]
    rfl

/-- The oldest entry is dropped from both maps. -/
theorem evict_ofList (h : Numbered early arrivals) :
    (ofList early arrivals).evict = ofList (early.drop 1) arrivals := by
  cases early with
  | nil => rfl
  | cons e es =>
    have hnew : e.id ∉ es.map (·.id) := (List.nodup_cons.mp h.distinct).1
    have hrest : es.filter (·.id ≠ e.id) = es := by
      refine List.filter_eq_self.mpr fun f hf => decide_eq_true fun hid => hnew ?_
      exact hid ▸ List.mem_map_of_mem hf
    have hentries : Table.erase (ofList (e :: es) arrivals).entries e.id =
        (ofList es arrivals).entries := by
      rw [Table.erase, ofList, List.filter_map]
      refine congrArg (List.map _) ?_
      rw [List.filter_cons_of_neg (by simp)]
      exact hrest
    have hevict : (ofList (e :: es) arrivals).evict = { ofList es arrivals with
        entries := Table.erase (ofList (e :: es) arrivals).entries e.id } := rfl
    rw [hevict, hentries]
    rfl

/-- A new message comes last in both maps. -/
theorem enter_ofList (h : Numbered early arrivals) (hi : i ∉ early.map (·.id)) :
    (ofList early arrivals).enter p i =
      ofList (early ++ [⟨i, arrivals, [p]⟩]) (arrivals + 1) := by
  have hkeys : i ∉ (ofList early arrivals).entries.keys := by
    rw [keys_ofList]
    exact hi
  have hlast : ∀ b ∈ (ofList early arrivals).order,
      lexicographic [(arrivals, i).1] [b.1] = .gt := by
    intro b hb
    obtain ⟨e, he, rfl⟩ := List.mem_map.mp hb
    have hlt := h.below e he
    simp [lexicographic, hlt, Nat.lt_asymm hlt]
  rw [enter, Table.put_of_not_mem hkeys]
  dsimp only [ofList]
  rw [insertAscending_of_gt hlast]
  simp

end EarlyIndex

namespace CausalLayer

/-- The two maps that the list of a layer stands for. -/
def index (l : CausalLayer) : EarlyIndex := .ofList l.early l.arrivals

/-- The messages in the table, oldest entry first. -/
def heardOf (l : CausalLayer) : List MessageId := l.early.map (·.id)

theorem any_early : l.early.any (·.id = i) = true ↔ i ∈ l.heardOf := by
  simp [heardOf]

theorem recordEarly_of_mem (hi : i ∈ l.heardOf) : l.recordEarly p i = { l with
    early := l.early.map fun e =>
      if e.id = i then { e with acked := insertAscending Proc.order p e.acked } else e } := by
  rw [recordEarly, if_pos (any_early.mpr hi)]

theorem not_mem_drop {n : Nat} (hi : i ∉ l.heardOf) : i ∉ (l.early.drop n).map (·.id) := by
  intro hmem
  exact hi (((List.drop_sublist n l.early).map _).subset hmem)

/-- A message that is entered comes last. It takes the place of the first if there is no room. -/
theorem recordEarly_of_not_mem (hi : i ∉ l.heardOf) :
    (l.recordEarly p i).early = l.early.drop (if l.earlyCapacity ≤ l.early.length then 1 else 0) ++
      [⟨i, l.arrivals, [p]⟩] ∧ (l.recordEarly p i).arrivals = l.arrivals + 1 := by
  rw [recordEarly, if_neg (mt any_early.mp hi)]
  refine ⟨?_, rfl⟩
  split
  · cases l.early <;> rfl
  · rfl

theorem numbered_recordEarly (h : Numbered l.early l.arrivals) :
    Numbered (l.recordEarly p i).early (l.recordEarly p i).arrivals := by
  by_cases hi : i ∈ l.heardOf
  · rw [recordEarly_of_mem hi]
    apply h.map
    · intro e
      split <;> rfl
    · intro e
      split <;> rfl
  · obtain ⟨hearly, harrivals⟩ := recordEarly_of_not_mem (p := p) hi
    rw [hearly, harrivals]
    exact (h.drop _).append (not_mem_drop hi)

theorem index_recordEarly (h : Numbered l.early l.arrivals) :
    (l.recordEarly p i).index = l.index.record l.earlyCapacity p i := by
  by_cases hi : i ∈ l.heardOf
  · obtain ⟨e, he, rfl⟩ := List.mem_map.mp hi
    have hget : l.index.entries.get? e.id = some ⟨e.arrival, e.acked⟩ :=
      (EarlyIndex.get?_ofList h).mpr ⟨e, he, rfl, rfl⟩
    have hkeys : l.index.entries.keys = l.heardOf := EarlyIndex.keys_ofList
    have hentries : (l.early.map fun f =>
        if f.id = e.id then { f with acked := insertAscending Proc.order p f.acked } else f).map
          (fun f => (f.id, (⟨f.arrival, f.acked⟩ : EarlyEntry))) =
        l.index.entries.map fun x =>
          if x.1 = e.id then (e.id, ⟨e.arrival, insertAscending Proc.order p e.acked⟩) else x := by
      rw [index, EarlyIndex.ofList, List.map_map, List.map_map]
      refine List.map_congr_left fun f hf => ?_
      by_cases hid : f.id = e.id
      · obtain rfl := h.unique hf he hid
        simp
      · simp [hid]
    have horder : (l.early.map fun f =>
        if f.id = e.id then { f with acked := insertAscending Proc.order p f.acked } else f).map
          (fun f => (f.arrival, f.id)) = l.index.order := by
      rw [List.map_map]
      refine List.map_congr_left fun f _ => ?_
      dsimp only [Function.comp]
      split <;> rfl
    rw [EarlyIndex.record, hget]
    dsimp only
    rw [Table.put_eq_map (by rw [hkeys]; exact h.distinct) (by rwa [hkeys]), ← hentries, ← horder,
      recordEarly_of_mem hi]
    rfl
  · obtain ⟨hearly, harrivals⟩ := recordEarly_of_not_mem (p := p) hi
    have hnone : l.index.entries.get? i = none := EarlyIndex.get?_ofList_eq_none.mpr hi
    have hlength : l.index.entries.length = l.early.length := List.length_map _
    have hroom : (if l.earlyCapacity ≤ l.index.entries.length then l.index.evict else l.index) =
        .ofList (l.early.drop (if l.earlyCapacity ≤ l.early.length then 1 else 0)) l.arrivals := by
      rw [hlength]
      split
      · exact EarlyIndex.evict_ofList h
      · rfl
    rw [EarlyIndex.record, hnone]
    dsimp only
    rw [hroom, EarlyIndex.enter_ofList (h.drop _) (not_mem_drop hi), index, hearly, harrivals]

end CausalLayer

end Multicast
