import Mathlib.Data.List.Basic
import Multicast.Table

/-! What a table says of a key after it is changed. -/
namespace Multicast.Table
variable {α β : Type} [DecidableEq α] {t : Table α β} {k k' : α} {v : β} {ks : List α}

@[simp] theorem get?_nil : get? ([] : Table α β) k = none := rfl

theorem get?_cons {e : α × β} :
    get? (e :: t) k = if e.1 = k then some e.2 else t.get? k := by
  by_cases h : e.1 = k <;> simp [get?, h]

theorem has_iff : t.has k = true ↔ ∃ v, t.get? k = some v := by
  induction t with
  | nil => simp [has]
  | cons e t ih =>
    rw [get?_cons]
    by_cases h : e.1 = k
    · simp [has, h]
    · simpa [has, h] using ih

theorem get?_put : (t.put k v).get? k' = if k' = k then some v else t.get? k' := by
  induction t with
  | nil => by_cases h : k = k' <;> simp [put, get?, h, eq_comm]
  | cons e es ih =>
    by_cases he : e.1 = k
    · by_cases h : k = k' <;> simp [put, get?, he, h, eq_comm]
    · by_cases h : e.1 = k'
      · have hk : k' ≠ k := fun hk => he (h.trans hk)
        simp [put, get?, h, hk]
      · simpa [put, get?, he, h] using ih

theorem get?_filter (keeps : α → Bool) :
    get? (t.filter (keeps ·.1)) k = if keeps k then t.get? k else none := by
  induction t with
  | nil => simp
  | cons e t ih =>
    by_cases he : e.1 = k
    · subst he
      by_cases hk : keeps e.1 = true
      · simp [hk, get?_cons]
      · simpa [List.filter_cons, hk] using ih
    · by_cases hk : keeps e.1 = true
      · rw [List.filter_cons, if_pos hk, get?_cons, get?_cons, if_neg he, if_neg he, ih]
      · rw [List.filter_cons, if_neg hk, get?_cons, if_neg he, ih]

theorem get?_erase : (t.erase k).get? k' = if k' = k then none else t.get? k' := by
  rw [erase, get?_filter (· ≠ k)]
  by_cases h : k' = k <;> simp [h]

/-- Changes to the values, which may depend on the keys. -/
theorem get?_map (change : α → β → β) :
    get? (t.map fun e => (e.1, change e.1 e.2)) k = (t.get? k).map (change k) := by
  induction t with
  | nil => rfl
  | cons e t ih =>
    rw [List.map_cons, get?_cons, get?_cons, ih]
    by_cases h : e.1 = k
    · subst h
      simp
    · simp [h]

theorem get?_const : get? (ks.map (·, v)) k = if k ∈ ks then some v else none := by
  induction ks with
  | nil => rfl
  | cons l ks ih =>
    rw [List.map_cons, get?_cons, ih]
    by_cases h : l = k
    · simp [h]
    · simp [h, Ne.symm h]

theorem get?_append_singleton :
    get? (t ++ [(k, v)]) k' = (t.get? k').or (if k = k' then some v else none) := by
  induction t with
  | nil => simp [get?_cons]
  | cons e t ih =>
    rw [List.cons_append, get?_cons, get?_cons, ih]
    by_cases h : e.1 = k' <;> simp [h]

theorem get?_putNew : (t.putNew k v).get? k' =
    if k' = k then some ((t.get? k).getD v) else t.get? k' := by
  unfold putNew
  by_cases hk : t.has k = true
  · obtain ⟨w, hw⟩ := has_iff.mp hk
    rw [if_pos hk]
    split
    · rename_i h
      rw [h, hw, Option.getD_some]
    · rfl
  · rw [if_neg hk, get?_append_singleton]
    split
    · rename_i h
      simp [h]
    · rename_i h
      simp [Ne.symm h]

/-- Keys that come in without a value get the same one. -/
theorem get?_foldl_putNew : (ks.foldl (fun t k => t.putNew k v) t).get? k =
    if k ∈ ks then some ((t.get? k).getD v) else t.get? k := by
  induction ks generalizing t with
  | nil => rfl
  | cons l ks ih =>
    rw [List.foldl_cons, ih, get?_putNew]
    by_cases h : k = l
    · simp [h]
    · simp [h]

/-! ### Keys -/

theorem has_iff_mem_keys : t.has k = true ↔ k ∈ t.keys := by
  simp [has, keys]

theorem get?_eq_none : t.get? k = none ↔ k ∉ t.keys := by
  rw [← has_iff_mem_keys, has_iff]
  cases t.get? k <;> simp

omit [DecidableEq α] in
theorem keys_filter (keeps : α → Bool) : keys (t.filter (keeps ·.1)) = t.keys.filter keeps :=
  List.filter_map.symm

omit [DecidableEq α] in
theorem keys_const : keys (ks.map (·, v)) = ks := by
  rw [keys, List.map_map]
  exact List.map_id ks

theorem keys_put (hk : k ∈ t.keys) : (t.put k v).keys = t.keys := by
  induction t with
  | nil => cases hk
  | cons e es ih =>
    by_cases he : e.1 = k
    · simp [put, keys, he]
    · have hes : k ∈ keys es := by
        rcases List.mem_cons.mp hk with hk | hk
        · exact (he hk.symm).elim
        · exact hk
      rw [put, if_neg he]
      exact congrArg (e.1 :: ·) (ih hes)

/-! ### Tables with one entry for each key -/

omit [DecidableEq α] in
theorem nodup_cons_keys {e : α × β} (h : (keys (e :: t)).Nodup) : e.1 ∉ t.keys ∧ t.keys.Nodup :=
  List.nodup_cons.mp h

theorem mem_iff_get? (h : t.keys.Nodup) : (k, v) ∈ t ↔ t.get? k = some v := by
  induction t with
  | nil => simp
  | cons e t ih =>
    obtain ⟨hnew, hrest⟩ := nodup_cons_keys h
    rw [get?_cons, List.mem_cons]
    by_cases he : e.1 = k
    · have hout : (k, v) ∉ t := fun hmem => hnew (he ▸ List.mem_map_of_mem hmem)
      rw [if_pos he, Option.some_inj, ← he]
      constructor
      · rintro (heq | hmem)
        · exact (congrArg Prod.snd heq).symm
        · exact (hout (he ▸ hmem)).elim
      · rintro rfl
        exact .inl rfl
    · rw [if_neg he, ← ih hrest]
      constructor
      · rintro (rfl | hmem)
        · exact (he rfl).elim
        · exact hmem
      · exact .inr

theorem put_of_not_mem (hk : k ∉ t.keys) : t.put k v = t ++ [(k, v)] := by
  induction t with
  | nil => rfl
  | cons e t ih =>
    obtain ⟨he, hrest⟩ := not_or.mp (List.mem_cons.not.mp hk)
    rw [put, if_neg (Ne.symm he), ih hrest]
    rfl

/-- An entry that has just been made is given its value in its place. -/
theorem put_putNew {w : β} : (t.putNew k v).put k w = t.put k w := by
  by_cases hk : k ∈ t.keys
  · rw [putNew, if_pos (has_iff_mem_keys.mpr hk)]
  · rw [putNew, if_neg (has_iff_mem_keys.not.mpr hk), put_of_not_mem hk]
    induction t with
    | nil => simp [put]
    | cons e t ih =>
      obtain ⟨he, hrest⟩ := not_or.mp (List.mem_cons.not.mp hk)
      rw [List.cons_append, put, if_neg (Ne.symm he), ih hrest]
      rfl

theorem map_of_not_mem {change : α × β → α × β} (hk : k ∉ t.keys) :
    (t.map fun e => if e.1 = k then change e else e) = t := by
  refine (List.map_congr_left fun e he => ?_).trans (List.map_id t)
  have hne : e.1 ≠ k := by
    rintro rfl
    exact hk (List.mem_map_of_mem he)
  exact if_neg hne

/-- A new value takes the place of the old one. -/
theorem put_eq_map (h : t.keys.Nodup) (hk : k ∈ t.keys) :
    t.put k v = t.map fun e => if e.1 = k then (k, v) else e := by
  induction t with
  | nil => cases hk
  | cons e t ih =>
    obtain ⟨hnew, hrest⟩ := nodup_cons_keys h
    rw [put, List.map_cons]
    by_cases he : e.1 = k
    · rw [if_pos he, if_pos he, map_of_not_mem (he ▸ hnew)]
    · have hk : k ∈ keys t := (List.mem_cons.mp hk).resolve_left (Ne.symm he)
      rw [if_neg he, if_neg he, ih hrest hk]

/-! ### Several keys -/

theorem keys_putNew : (t.putNew k v).keys = if k ∈ t.keys then t.keys else t.keys ++ [k] := by
  unfold putNew
  by_cases hk : k ∈ t.keys
  · rw [if_pos (has_iff_mem_keys.mpr hk), if_pos hk]
  · rw [if_neg (mt has_iff_mem_keys.mp hk), if_neg hk, keys, List.map_append]
    rfl

theorem mem_keys_foldl_putNew : k ∈ (ks.foldl (fun t k => t.putNew k v) t).keys ↔
    k ∈ t.keys ∨ k ∈ ks := by
  induction ks generalizing t with
  | nil => simp
  | cons l ks ih =>
    rw [List.foldl_cons, ih, keys_putNew, List.mem_cons]
    split
    · rename_i hl
      constructor
      · rintro (hk | hk)
        · exact .inl hk
        · exact .inr (.inr hk)
      · rintro (hk | rfl | hk)
        · exact .inl hk
        · exact .inl hl
        · exact .inr hk
    · rw [List.mem_append, List.mem_singleton, or_assoc]

theorem nodup_keys_foldl_putNew (ht : t.keys.Nodup) :
    (ks.foldl (fun t k => t.putNew k v) t).keys.Nodup := by
  induction ks generalizing t with
  | nil => exact ht
  | cons l ks ih =>
    apply ih
    rw [keys_putNew]
    split
    · exact ht
    · rename_i hl
      refine List.nodup_append.mpr ⟨ht, by simp, ?_⟩
      intro k hk k' hk' heq
      rw [List.mem_singleton.mp hk'] at heq
      exact hl (heq ▸ hk)

/-- Keys that are new, each given a value, come behind the others in order. -/
theorem foldl_put_new (hn : ks.Nodup) (hnew : ∀ k ∈ ks, k ∉ t.keys) :
    ks.foldl (fun t k => t.put k v) t = t ++ ks.map (·, v) := by
  induction ks generalizing t with
  | nil => simp
  | cons k ks ih =>
    obtain ⟨hk, hks⟩ := List.nodup_cons.mp hn
    have hput : t.put k v = t ++ [(k, v)] := put_of_not_mem (hnew k List.mem_cons_self)
    rw [List.foldl_cons, hput, ih hks, List.append_assoc, List.map_cons, List.singleton_append]
    intro l hl
    have hkeys : keys (t ++ [(k, v)]) = t.keys ++ [k] := List.map_append
    rw [hkeys, List.mem_append, List.mem_singleton, not_or]
    exact ⟨hnew l (List.mem_cons_of_mem _ hl), fun he => hk (he ▸ hl)⟩

theorem foldl_erase : ks.foldl erase t = t.filter (·.1 ∉ ks) := by
  induction ks generalizing t with
  | nil => simp
  | cons k ks ih =>
    rw [List.foldl_cons, ih, erase, List.filter_filter]
    exact List.filter_congr fun e _ => by simp [Bool.and_comm]

end Multicast.Table
