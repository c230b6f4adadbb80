/-!
# Finite maps with unique keys

A `KeyMap κ α` is the list of its entries, no key twice, the entry inserted last in front.  It
carries the uniqueness of its keys, so every map that can be written down is one.

    (m.insert k v).get? k' = if k' = k then some v else m.get? k'      (get?_insert)
    (m.erase k).get? k' = if k' = k then none else m.get? k'           (get?_erase)
    m.get? k = some v ↔ (k, v) ∈ m.toList                              (get?_eq_some_iff)
-/

namespace Interning

/-! ## Algorithm -/

/-- A finite map from `κ` to `α`. -/
structure KeyMap (κ α : Type) where
  /-- The entries, the one inserted last in front. -/
  toList : List (κ × α)
  /-- No key has two entries. -/
  keys_nodup : (toList.map Prod.fst).Nodup

namespace KeyMap

variable {κ α : Type}

def empty : KeyMap κ α := ⟨[], List.nodup_nil⟩

instance : EmptyCollection (KeyMap κ α) := ⟨empty⟩

instance : Inhabited (KeyMap κ α) := ⟨empty⟩

def keys (m : KeyMap κ α) : List κ := m.toList.map Prod.fst

def values (m : KeyMap κ α) : List α := m.toList.map Prod.snd

def size (m : KeyMap κ α) : Nat := m.toList.length

def isEmpty (m : KeyMap κ α) : Bool := m.toList.isEmpty

variable [DecidableEq κ]

def get? (m : KeyMap κ α) (k : κ) : Option α := m.toList.lookup k

def contains (m : KeyMap κ α) (k : κ) : Bool := (m.get? k).isSome

def erase (m : KeyMap κ α) (k : κ) : KeyMap κ α where
  toList := m.toList.filter (·.1 ≠ k)
  keys_nodup := m.keys_nodup.sublist (List.filter_sublist.map _)

/-- The map with `v` under `k`, in place of what was there. -/
def insert (m : KeyMap κ α) (k : κ) (v : α) : KeyMap κ α where
  toList := (k, v) :: (m.erase k).toList
  keys_nodup := by
    refine List.nodup_cons.2 ⟨fun h => ?_, (m.erase k).keys_nodup⟩
    obtain ⟨e, he, hk⟩ := List.mem_map.1 h
    simp [erase, hk] at he

/-- The map of a list of entries, a later one replacing an earlier one of the same key. -/
def ofList (entries : List (κ × α)) : KeyMap κ α :=
  entries.foldl (fun m e => m.insert e.1 e.2) empty

/-! ## Lemmas -/

theorem lookup_filter_ne (l : List (κ × α)) (k k' : κ) :
    (l.filter (·.1 ≠ k)).lookup k' = if k' = k then none else l.lookup k' := by
  induction l with
  | nil => simp
  | cons e l ih =>
    by_cases h : e.1 = k
    · rw [List.filter_cons_of_neg (by simpa using h), ih]
      split
      · rfl
      · next hk => rw [List.lookup_cons, beq_false_of_ne (fun hc => hk (hc.trans h))]
    · rw [List.filter_cons_of_pos (by simpa using h), List.lookup_cons, ih, List.lookup_cons]
      by_cases hk : k' = e.1
      · have : k' ≠ k := fun hc => h (hk ▸ hc)
        simp [hk, h]
      · simp [beq_false_of_ne hk]

@[simp]
theorem get?_empty (k : κ) : (empty : KeyMap κ α).get? k = none := rfl

theorem get?_erase (m : KeyMap κ α) (k k' : κ) :
    (m.erase k).get? k' = if k' = k then none else m.get? k' :=
  lookup_filter_ne m.toList k k'

theorem get?_insert (m : KeyMap κ α) (k k' : κ) (v : α) :
    (m.insert k v).get? k' = if k' = k then some v else m.get? k' := by
  show List.lookup k' ((k, v) :: (m.erase k).toList) = _
  rw [List.lookup_cons]
  by_cases h : k' = k
  · simp [h]
  · rw [beq_false_of_ne h, if_neg h]
    exact (m.get?_erase k k').trans (if_neg h)

theorem mem_toList_of_get? {m : KeyMap κ α} {k : κ} {v : α} (h : m.get? k = some v) :
    (k, v) ∈ m.toList := by
  obtain ⟨l₁, l₂, hl, -⟩ := List.lookup_eq_some_iff.1 h
  simp [hl]

theorem get?_eq_some_iff {m : KeyMap κ α} {k : κ} {v : α} :
    m.get? k = some v ↔ (k, v) ∈ m.toList := by
  refine ⟨mem_toList_of_get?, fun h => ?_⟩
  obtain ⟨l₁, l₂, hl⟩ := List.append_of_mem h
  refine List.lookup_eq_some_iff.2 ⟨l₁, l₂, hl, fun e he => ?_⟩
  have hn := m.keys_nodup
  rw [hl, List.map_append, List.map_cons] at hn
  have := (List.nodup_append.1 hn).2.2 e.1 (List.mem_map_of_mem he) k (List.mem_cons_self ..)
  simpa using fun hc => this hc.symm

end KeyMap

end Interning
