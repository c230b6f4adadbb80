import Interning.KeyMap

/-!
# Sizes, values and parts of finite maps

    (m.insert k v).size = m.size + if m.contains k then 0 else 1       (size_insert)
    (m.erase k).size + 1 = m.size if k has an entry                    (size_erase)
    v ∈ m.values ↔ ∃ k, m.get? k = some v                              (mem_values_iff)
    (m.keep p).get? k = (m.get? k).filter p                            (get?_keep)
-/

namespace Interning.KeyMap

/-! ## Algorithm -/

/-- The entries whose value has a property. -/
def keep {κ α : Type} (m : KeyMap κ α) (p : α → Bool) : KeyMap κ α where
  toList := m.toList.filter fun e => p e.2
  keys_nodup := m.keys_nodup.sublist (List.filter_sublist.map _)

/-! ## Lemmas -/

variable {κ α : Type} [DecidableEq κ] {m : KeyMap κ α}

theorem get?_eq_none_iff {k : κ} : m.get? k = none ↔ ∀ e ∈ m.toList, e.1 ≠ k := by
  rw [get?, List.lookup_eq_none_iff]
  refine forall₂_congr fun e _ => ?_
  rw [bne_iff_ne]
  exact ne_comm

theorem mem_values_iff {v : α} : v ∈ m.values ↔ ∃ k, m.get? k = some v := by
  rw [values, List.mem_map]
  constructor
  · rintro ⟨⟨k, v⟩, he, rfl⟩
    exact ⟨k, get?_eq_some_iff.2 he⟩
  · rintro ⟨k, hk⟩
    exact ⟨(k, v), get?_eq_some_iff.1 hk, rfl⟩

theorem toList_insert (k : κ) (v : α) : (m.insert k v).toList = (k, v) :: (m.erase k).toList := rfl

theorem toList_erase_of_get?_eq_none {k : κ} (h : m.get? k = none) :
    (m.erase k).toList = m.toList := by
  rw [erase, List.filter_eq_self]
  intro e he
  exact decide_eq_true (get?_eq_none_iff.1 h e he)

theorem values_insert_of_get?_eq_none {k : κ} (h : m.get? k = none) (v : α) :
    (m.insert k v).values = v :: m.values := by
  rw [values, toList_insert, toList_erase_of_get?_eq_none h]
  rfl

theorem size_erase {k : κ} {v : α} (h : m.get? k = some v) : (m.erase k).size + 1 = m.size := by
  obtain ⟨l₁, l₂, hl⟩ := List.append_of_mem (get?_eq_some_iff.1 h)
  have hn := m.keys_nodup
  rw [hl, List.map_append, List.map_cons, List.perm_middle.nodup_iff, List.nodup_cons] at hn
  have hk : ∀ e ∈ l₁ ++ l₂, decide (e.1 ≠ k) = true := by
    intro e he
    refine decide_eq_true fun hc => hn.1 ?_
    rw [← List.map_append]
    exact List.mem_map.2 ⟨e, he, hc⟩
  have hf : (m.erase k).toList = l₁ ++ l₂ := by
    show m.toList.filter (·.1 ≠ k) = _
    rw [hl, List.filter_append, List.filter_cons_of_neg (by simp), ← List.filter_append]
    exact List.filter_eq_self.2 hk
  rw [size, size, hf, hl, List.length_append, List.length_append, List.length_cons]
  rfl

theorem contains_eq_false_iff {k : κ} : m.contains k = false ↔ m.get? k = none := by
  rw [contains, Option.isSome_eq_false_iff, Option.isNone_iff_eq_none]

theorem size_insert (k : κ) (v : α) :
    (m.insert k v).size = m.size + if m.contains k then 0 else 1 := by
  rw [size, toList_insert, List.length_cons]
  cases h : m.get? k with
  | none =>
    rw [toList_erase_of_get?_eq_none h, if_neg (by rw [contains, h]; exact Bool.false_ne_true)]
    rfl
  | some u =>
    rw [if_pos (by rw [contains, h]; rfl)]
    exact size_erase h

/-! ### Parts -/

omit [DecidableEq κ] in
theorem eq_of_toList {m m' : KeyMap κ α} (h : m.toList = m'.toList) : m = m' := by
  cases m
  cases m'
  cases h
  rfl

theorem eq_empty_of_get? (h : ∀ k, m.get? k = none) : m = ∅ := by
  refine eq_of_toList (List.eq_nil_iff_forall_not_mem.2 fun e he => ?_)
  cases (h e.1).symm.trans (get?_eq_some_iff.2 he)

theorem erase_comm (k k' : κ) : (m.erase k).erase k' = (m.erase k').erase k :=
  eq_of_toList (by simp only [erase, List.filter_filter, Bool.and_comm])

theorem get?_keep (p : α → Bool) (k : κ) : (m.keep p).get? k = (m.get? k).filter p := by
  refine Option.ext fun v => ?_
  rw [get?_eq_some_iff, Option.filter_eq_some_iff, get?_eq_some_iff]
  exact List.mem_filter

theorem keep_congr {p q : α → Bool} (h : ∀ k v, m.get? k = some v → p v = q v) :
    m.keep p = m.keep q :=
  eq_of_toList (List.filter_congr fun e he => h e.1 e.2 (get?_eq_some_iff.2 he))

theorem keep_eq_self {p : α → Bool} (h : ∀ k v, m.get? k = some v → p v = true) : m.keep p = m :=
  eq_of_toList (List.filter_eq_self.2 fun e he => h e.1 e.2 (get?_eq_some_iff.2 he))

omit [DecidableEq κ] in
theorem keep_keep (p q : α → Bool) : (m.keep p).keep q = m.keep fun v => p v && q v := by
  refine eq_of_toList ?_
  show (m.toList.filter _).filter _ = m.toList.filter _
  rw [List.filter_filter]
  exact List.filter_congr fun e _ => Bool.and_comm _ _

theorem keep_erase (p : α → Bool) (k : κ) : (m.erase k).keep p = (m.keep p).erase k := by
  refine eq_of_toList ?_
  show (m.toList.filter _).filter _ = (m.toList.filter _).filter _
  rw [List.filter_filter, List.filter_filter]
  exact List.filter_congr fun e _ => Bool.and_comm _ _

theorem keep_insert {p : α → Bool} {v : α} (h : p v = true) (k : κ) :
    (m.insert k v).keep p = (m.keep p).insert k v := by
  refine eq_of_toList ?_
  have hcons : ((k, v) :: (m.erase k).toList).filter (fun e => p e.2) =
      (k, v) :: (m.erase k).toList.filter fun e => p e.2 := List.filter_cons_of_pos h
  rw [toList_insert, ← keep_erase]
  exact hcons

/-- To leave out the one entry of a value is to erase its key. -/
theorem erase_eq_keep {k : κ} {v : α} [DecidableEq α] (h : m.get? k = some v)
    (hv : ∀ k', m.get? k' = some v → k' = k) : m.erase k = m.keep fun u => u != v := by
  refine eq_of_toList (List.filter_congr fun e he => ?_)
  have he := get?_eq_some_iff.2 he
  show decide (e.1 ≠ k) = (e.2 != v)
  by_cases hu : e.2 = v
  · rw [hu] at he
    rw [hu, bne_self_eq_false]
    exact decide_eq_false fun hc => hc (hv e.1 he)
  · rw [bne_iff_ne.2 hu]
    refine decide_eq_true fun hc => hu ?_
    rw [hc] at he
    exact Option.some.inj (he.symm.trans h)

end Interning.KeyMap
