import Interning.Proofs.KeyMap
import Interning.Proofs.MemoryTracker
import Interning.Proofs.World.Operations

/-!
# Giving up in any order

Handles are dropped and owners of retaining tables are given up.  Of two such operations either may
come first: what each of them takes away is its own, the counters and the tracker only lose, and a
word that stops at zero forgets the order of what it loses.

    two reclamations of a table                                             (Table.reclaim_comm)
    two handles                                                                      (drop_comm)
    a handle and the owner of a retaining table                               (disown_drop_comm)
    the owners of two retaining tables                                             (disown_comm)
-/

namespace Interning

/-! ## Algorithm -/

namespace Table

/-- A table after it lost an owner. -/
def abandoned (x : Table) : Table :=
  { x with
    owners := x.owners - 1
    entries := if x.owners ≤ 1 ∧ x.storage = .retaining then ∅ else x.entries }

/-- The handles that a table lets go when it loses an owner. -/
def letGo (x : Table) : List InstanceId :=
  if x.owners ≤ 1 ∧ x.storage = .retaining then x.entries.values.reverse else []

end Table

namespace World

/-- Two worlds are the same but for their journals. -/
structure Alike (w w' : World) : Prop where
  instances : ∀ i, w'.instanceAt i = w.instanceAt i
  tables : ∀ t, w'.tableAt t = w.tableAt t
  tracker : w'.tracker = w.tracker

/-- Only reclaiming tables register, and what an instance gives back to the tracker fits in a signed
word. -/
structure Orderly (w : World) : Prop where
  reclaiming : ∀ i r, w.registration i = some r → (w.tableAt r.table).storage = .reclaiming
  signed : ∀ i r, w.registration i = some r → w.handles i ≠ 0 → w.isOwned r.table = true →
    w.isTracked r.table = true → (entryBytes r.key (w.text i)).toNat < 2 ^ 63

end World

/-! ## Lemmas -/

theorem Counters.recordReclaim_comm (c : Counters) (r r' : Bool) (b b' : UInt64) :
    (c.recordReclaim r b).recordReclaim r' b' = (c.recordReclaim r' b').recordReclaim r b := by
  cases r <;> cases r' <;> simp [recordReclaim, subSaturating_comm c.bytes b b']

theorem Table.counters_reclaim (x : Table) (key : String) (i : InstanceId) (bytes : UInt64) :
    (x.reclaim key i bytes).counters =
      x.counters.recordReclaim (decide (x.entries.get? key = some i)) bytes := rfl

/-- The entry of one instance is not that of another. -/
theorem Table.get?_reclaim (x : Table) {i j : InstanceId} (h : i ≠ j) (key key' : String)
    (bytes : UInt64) :
    (x.reclaim key i bytes).entries.get? key' = some j ↔ x.entries.get? key' = some j := by
  rw [reclaim]
  dsimp only
  split
  · next hk =>
    rw [KeyMap.get?_erase]
    by_cases hkey : key' = key
    · subst hkey
      rw [if_pos rfl, hk]
      simp [h]
    · rw [if_neg hkey]
  · exact Iff.rfl

/-- Of two instances either may be reclaimed first. -/
theorem Table.reclaim_comm (x : Table) {i j : InstanceId} (h : i ≠ j) (key key' : String)
    (b b' : UInt64) :
    (x.reclaim key i b).reclaim key' j b' = (x.reclaim key' j b').reclaim key i b := by
  have hj : (x.reclaim key i b).entries.get? key' = some j ↔ x.entries.get? key' = some j :=
    x.get?_reclaim h key key' b
  have hi : (x.reclaim key' j b').entries.get? key = some i ↔ x.entries.get? key = some i :=
    x.get?_reclaim (Ne.symm h) key' key b'
  have hentries : ((x.reclaim key i b).reclaim key' j b').entries =
      ((x.reclaim key' j b').reclaim key i b).entries := by
    show (if _ then _ else _) = (if _ then _ else _)
    simp only [hi, hj]
    by_cases h₁ : x.entries.get? key = some i <;> by_cases h₂ : x.entries.get? key' = some j <;>
      simp [reclaim, h₁, h₂, KeyMap.erase_comm]
  have hcounters : ((x.reclaim key i b).reclaim key' j b').counters =
      ((x.reclaim key' j b').reclaim key i b).counters := by
    simp only [counters_reclaim, hi, hj]
    exact Counters.recordReclaim_comm ..
  exact (Table.mk.injEq ..).mpr ⟨rfl, rfl, rfl, hentries, hcounters⟩

namespace World

variable {w w' w₁ : World} {i j : InstanceId} {t u : TableId}

/-! ### Worlds that are alike -/

namespace Alike

theorem refl (w : World) : w.Alike w := ⟨fun _ => rfl, fun _ => rfl, rfl⟩

theorem symm (h : w.Alike w') : w'.Alike w :=
  ⟨fun i => (h.instances i).symm, fun t => (h.tables t).symm, h.tracker.symm⟩

theorem trans (h : w.Alike w') (h' : w'.Alike w₁) : w.Alike w₁ :=
  ⟨fun i => (h'.instances i).trans (h.instances i), fun t => (h'.tables t).trans (h.tables t),
    h'.tracker.trans h.tracker⟩

theorem text (h : w.Alike w') (i : InstanceId) : w'.text i = w.text i :=
  congrArg Instance.text (h.instances i)

theorem handles (h : w.Alike w') (i : InstanceId) : w'.handles i = w.handles i :=
  congrArg Instance.handles (h.instances i)

theorem isTracked (h : w.Alike w') (t : TableId) : w'.isTracked t = w.isTracked t :=
  congrArg Table.tracked (h.tables t)

theorem registration (h : w.Alike w') (i : InstanceId) : w'.registration i = w.registration i :=
  congrArg Instance.registration (h.instances i)

theorem isOwned (h : w.Alike w') : w'.isOwned = w.isOwned :=
  funext fun t => congrArg (fun x : Table => decide (0 < x.owners)) (h.tables t)

theorem told (h : w.Alike w') (i : InstanceId) : w'.told i = w.told i := by
  rw [World.told, World.told, h.handles, h.registration, h.isOwned]

/-- What is dropped in one world may be dropped in the other. -/
theorem drop (h : w.Alike w') (i : InstanceId) : (w.drop i).Alike (w'.drop i) where
  instances j := by rw [instanceAt_drop, instanceAt_drop, h.instances, h.handles]
  tables t := by
    rw [tableAt_drop, tableAt_drop, tableAfterDrop, tableAfterDrop, h.told, h.tables, h.text]
  tracker := by simp only [tracker_drop, h.told, h.isTracked, h.tracker, h.text]

theorem dropAll (h : w.Alike w') (is : List InstanceId) : (w.dropAll is).Alike (w'.dropAll is) := by
  induction is generalizing w w' with
  | nil => exact h
  | cons i is ih => exact ih (h.drop i)

end Alike

/-! ### Two handles -/

theorem told_drop_of_ne (h : j ≠ i) : (w.drop i).told j = w.told j := by
  simp only [told, handles_drop, if_neg h, Nat.sub_zero, registration_drop, isOwned_drop]

theorem Orderly.drop (hw : w.Orderly) (i : InstanceId) : (w.drop i).Orderly where
  reclaiming j r hr := by
    rw [registration_drop] at hr
    rw [storage_drop]
    exact hw.reclaiming j r hr
  signed j r hr hh ho ht := by
    rw [registration_drop] at hr
    rw [handles_drop] at hh
    rw [isOwned_drop] at ho
    rw [isTracked_drop] at ht
    rw [text_drop]
    exact hw.signed j r hr (by omega) ho ht

theorem Orderly.dropAll (hw : w.Orderly) (is : List InstanceId) : (w.dropAll is).Orderly := by
  induction is generalizing w with
  | nil => exact hw
  | cons i is ih => exact ih (hw.drop i)

theorem Orderly.signed_of_told (hw : w.Orderly) {r : Registration} (h : w.told i = some r)
    (ht : w.isTracked r.table = true) : (entryBytes r.key (w.text i)).toNat < 2 ^ 63 := by
  obtain ⟨hh, hr, ho⟩ := told_eq_some_iff.1 h
  exact hw.signed i r hr (by omega) ho ht

/-- Of two handles either may be dropped first. -/
theorem drop_comm (hw : w.Orderly) (i j : InstanceId) :
    ((w.drop i).drop j).Alike ((w.drop j).drop i) := by
  by_cases hij : i = j
  · subst hij
    exact .refl _
  have hti : (w.drop j).told i = w.told i := told_drop_of_ne hij
  have htj : (w.drop i).told j = w.told j := told_drop_of_ne (Ne.symm hij)
  constructor
  case instances =>
    intro k
    simp only [instanceAt_drop, handles_drop, Nat.sub_right_comm]
  case tables =>
    intro s
    simp only [tableAt_drop, tableAfterDrop, hti, htj, text_drop]
    cases hi : w.told i with
    | none => rfl
    | some r =>
      cases hj : w.told j with
      | none => rfl
      | some q =>
        by_cases hr : s = r.table <;> by_cases hq : s = q.table
        · simp only [if_pos hr, if_pos hq]
          exact Table.reclaim_comm _ (Ne.symm hij) ..
        · simp only [if_pos hr, if_neg hq]
        · simp only [if_neg hr, if_pos hq]
        · simp only [if_neg hr, if_neg hq]
  case tracker =>
    simp only [tracker_drop, hti, htj, text_drop, isTracked_drop]
    cases hi : w.told i with
    | none => rfl
    | some r =>
      cases hj : w.told j with
      | none => rfl
      | some q =>
        by_cases hr : w.isTracked r.table = true <;> by_cases hq : w.isTracked q.table = true
        · simp only [if_pos hr, if_pos hq]
          exact MemoryTracker.record_loss_comm (hw.signed_of_told hj hq) (hw.signed_of_told hi hr)
        · simp only [if_pos hr, if_neg hq]
        · simp only [if_neg hr, if_pos hq]
        · simp only [if_neg hr, if_neg hq]

theorem dropAll_drop_comm (hw : w.Orderly) (is : List InstanceId) (i : InstanceId) :
    ((w.drop i).dropAll is).Alike ((w.dropAll is).drop i) := by
  induction is generalizing w with
  | nil => exact .refl _
  | cons j is ih => exact ((drop_comm hw i j).dropAll is).trans (ih (hw.drop j))

theorem dropAll_comm (hw : w.Orderly) (is js : List InstanceId) :
    ((w.dropAll is).dropAll js).Alike ((w.dropAll js).dropAll is) := by
  induction is generalizing w with
  | nil => exact .refl _
  | cons i is ih => exact (ih (hw.drop i)).trans ((dropAll_drop_comm hw js i).dropAll is)

/-! ### An owner that goes -/

theorem abandon_fst (t : TableId) (w : World) : (w.abandon t).1 = (w.tableAt t).letGo := by
  rw [abandon_eq, Table.letGo]
  split <;> rfl

theorem instances_abandon (t : TableId) (w : World) :
    (w.abandon t).2.instances = w.instances := by
  rw [abandon_eq]
  split <;> rfl

theorem instanceAt_abandon (t : TableId) (i : InstanceId) (w : World) :
    (w.abandon t).2.instanceAt i = w.instanceAt i := by
  rw [instanceAt, instances_abandon]
  rfl

theorem tracker_abandon (t : TableId) (w : World) : (w.abandon t).2.tracker = w.tracker := by
  rw [abandon_eq]
  split <;> rfl

theorem tableAt_abandon (t s : TableId) (w : World) :
    (w.abandon t).2.tableAt s =
      if s = t then (w.tableAt s).abandoned else w.tableAt s := by
  by_cases hs : s = t
  · subst hs
    rw [if_pos rfl, abandon_eq, Table.abandoned]
    rcases Nat.lt_or_ge s w.tables.size with hlt | hge
    · have hown : (w.removeOwner s).tableAt s =
          { w.tableAt s with owners := (w.tableAt s).owners - 1 } := tableAt_modifyTable_self hlt _
      split
      · rw [modifyEntries, tableAt_modifyTable_self (by simpa [removeOwner] using hlt), hown]
      · exact hown
    · -- A table that is not there stays as it is.
      have hafter : ∀ v : World, v.tables.size ≤ s → v.tableAt s = default := by
        intro v hv
        rw [tableAt, Array.getElem?_eq_none hv]
        rfl
      rw [hafter w hge]
      split
      · exact hafter _ (by simpa [removeOwner, modifyEntries] using hge)
      · exact hafter _ (by simpa [removeOwner] using hge)
  · rw [if_neg hs, abandon_eq]
    split
    · rw [modifyEntries, tableAt_modifyTable_of_ne hs, removeOwner, tableAt_modifyTable_of_ne hs]
    · exact tableAt_modifyTable_of_ne hs _

/-- With its last owner a retaining table lets all its entries go. -/
theorem entries_abandon (hs : (w.tableAt t).storage = .retaining)
    (ho : (w.abandon t).2.isOwned t = false) : (w.abandon t).2.entries t = ∅ := by
  have ht : (w.abandon t).2.tableAt t = (w.tableAt t).abandoned :=
    (tableAt_abandon t t w).trans (if_pos rfl)
  have howners : ¬0 < (w.tableAt t).owners - 1 := by
    rw [isOwned, ht] at ho
    exact of_decide_eq_false ho
  rw [entries, ht]
  exact if_pos ⟨by omega, hs⟩

theorem disown_eq (t : TableId) (w : World) :
    w.disown t = (w.abandon t).2.dropAll (w.tableAt t).letGo := by
  rw [← abandon_fst]
  rfl

theorem storage_abandon (t s : TableId) (w : World) :
    ((w.abandon t).2.tableAt s).storage = (w.tableAt s).storage := by
  rw [tableAt_abandon]
  split <;> rfl

theorem isTracked_abandon (t s : TableId) (w : World) :
    (w.abandon t).2.isTracked s = w.isTracked s := by
  rw [isTracked, tableAt_abandon]
  split <;> rfl

theorem isOwned_of_abandon (h : (w.abandon t).2.isOwned u = true) : w.isOwned u = true := by
  rw [isOwned_iff, tableAt_abandon] at h
  rw [isOwned_iff]
  split at h
  · exact Nat.lt_of_lt_of_le h (Nat.sub_le _ 1)
  · exact h

theorem Orderly.abandon (hw : w.Orderly) (t : TableId) : (w.abandon t).2.Orderly where
  reclaiming i r hr := by
    rw [registration_congr (instances_abandon t w)] at hr
    rw [storage_abandon]
    exact hw.reclaiming i r hr
  signed i r hr hh ho ht := by
    rw [registration_congr (instances_abandon t w)] at hr
    rw [handles_congr (instances_abandon t w)] at hh
    rw [isTracked_abandon] at ht
    rw [text_congr (instances_abandon t w)]
    exact hw.signed i r hr hh (isOwned_of_abandon ho) ht

theorem Alike.abandon (h : w.Alike w') (t : TableId) :
    (w.abandon t).2.Alike (w'.abandon t).2 where
  instances i := by rw [instanceAt_abandon, instanceAt_abandon, h.instances]
  tables s := by rw [tableAt_abandon, tableAt_abandon, h.tables]
  tracker := by rw [tracker_abandon, tracker_abandon, h.tracker]

theorem Alike.disown (h : w.Alike w') (t : TableId) : (w.disown t).Alike (w'.disown t) := by
  rw [disown_eq, disown_eq, h.tables]
  exact (h.abandon t).dropAll _

theorem storage_disown (t s : TableId) (w : World) :
    ((w.disown t).tableAt s).storage = (w.tableAt s).storage := by
  rw [disown_eq, field_dropAll Table.storage fun _ _ _ _ => rfl, storage_abandon]

theorem Orderly.disown (hw : w.Orderly) (t : TableId) : (w.disown t).Orderly := by
  rw [disown_eq]
  exact (hw.abandon t).dropAll _

/-! ### Retaining tables -/

/-- Dropping a handle leaves a retaining table alone. -/
theorem Orderly.tableAt_drop (hw : w.Orderly) (hs : (w.tableAt t).storage = .retaining)
    (i : InstanceId) : (w.drop i).tableAt t = w.tableAt t := by
  rw [World.tableAt_drop, tableAfterDrop]
  split
  · next r hr =>
    rw [if_neg]
    rintro rfl
    cases hs.symm.trans (hw.reclaiming i r (told_eq_some_iff.1 hr).2.1)
  · rfl

theorem Orderly.tableAt_dropAll (hw : w.Orderly) (hs : (w.tableAt t).storage = .retaining)
    (is : List InstanceId) : (w.dropAll is).tableAt t = w.tableAt t := by
  induction is generalizing w with
  | nil => rfl
  | cons i is ih =>
    have hi := hw.tableAt_drop hs i
    exact (ih (hw.drop i) (hi ▸ hs)).trans hi

/-- The owner of a retaining table keeps nobody from being told. -/
theorem Orderly.told_abandon (hw : w.Orderly) (hs : (w.tableAt t).storage = .retaining)
    (i : InstanceId) : (w.abandon t).2.told i = w.told i := by
  refine told_congr (instances_abandon t w) i fun r hr => ?_
  have hne : r.table ≠ t := by
    rintro rfl
    cases hs.symm.trans (hw.reclaiming i r hr)
  rw [isOwned, tableAt_abandon, if_neg hne]
  rfl

theorem abandon_drop_comm (hw : w.Orderly) (hs : (w.tableAt t).storage = .retaining)
    (i : InstanceId) : ((w.drop i).abandon t).2.Alike ((w.abandon t).2.drop i) := by
  have htold := hw.told_abandon hs i
  have htext : (w.abandon t).2.text i = w.text i := text_congr (instances_abandon t w) i
  constructor
  case instances =>
    intro k
    rw [instanceAt_abandon, instanceAt_drop, instanceAt_drop, instanceAt_abandon,
      handles_congr (instances_abandon t w)]
  case tables =>
    intro s
    by_cases h : s = t
    · subst h
      have hs' : ((w.abandon s).2.tableAt s).storage = .retaining := by rwa [storage_abandon]
      rw [(hw.abandon s).tableAt_drop hs', tableAt_abandon, tableAt_abandon, hw.tableAt_drop hs]
    · rw [World.tableAt_drop, tableAfterDrop, htold, htext, tableAt_abandon, if_neg h,
        tableAt_abandon, if_neg h, World.tableAt_drop, tableAfterDrop]
  case tracker =>
    simp only [tracker_abandon, tracker_drop, htold, htext, isTracked_abandon]

theorem abandon_dropAll_comm (hw : w.Orderly) (hs : (w.tableAt t).storage = .retaining)
    (is : List InstanceId) :
    ((w.dropAll is).abandon t).2.Alike ((w.abandon t).2.dropAll is) := by
  induction is generalizing w with
  | nil => exact .refl _
  | cons i is ih =>
    have hi := hw.tableAt_drop hs i
    exact (ih (hw.drop i) (hi ▸ hs)).trans ((abandon_drop_comm hw hs i).dropAll is)

theorem abandon_comm (t u : TableId) (w : World) :
    ((w.abandon t).2.abandon u).2.Alike ((w.abandon u).2.abandon t).2 where
  instances i := by simp only [instanceAt_abandon]
  tables s := by
    simp only [tableAt_abandon]
    by_cases ht : s = t <;> by_cases hu : s = u
    · simp only [if_pos ht, if_pos hu]
    · simp only [if_pos ht, if_neg hu]
    · simp only [if_neg ht, if_pos hu]
    · simp only [if_neg ht, if_neg hu]
  tracker := by simp only [tracker_abandon]

/-- Of a handle and an owner of a retaining table either may be given up first. -/
theorem disown_drop_comm (hw : w.Orderly) (hs : (w.tableAt t).storage = .retaining)
    (i : InstanceId) : ((w.drop i).disown t).Alike ((w.disown t).drop i) := by
  rw [disown_eq, disown_eq, hw.tableAt_drop hs]
  exact ((abandon_drop_comm hw hs i).dropAll _).trans (dropAll_drop_comm (hw.abandon t) _ i)

/-- Of the owners of two retaining tables either may be given up first. -/
theorem disown_comm (hw : w.Orderly) (ht : (w.tableAt t).storage = .retaining)
    (hu : (w.tableAt u).storage = .retaining) :
    ((w.disown t).disown u).Alike ((w.disown u).disown t) := by
  by_cases htu : t = u
  · subst htu
    exact .refl _
  -- The entries of each are let go by itself, after both owners went.
  have hsplit : ∀ {a b : TableId}, a ≠ b → (w.tableAt b).storage = .retaining →
      ((w.disown a).disown b).Alike
        ((((w.abandon a).2.abandon b).2.dropAll (w.tableAt a).letGo).dropAll
          (w.tableAt b).letGo) := by
    intro a b hab hb
    have hb' : ((w.abandon a).2.tableAt b).storage = .retaining := by rwa [storage_abandon]
    have htable : (w.disown a).tableAt b = w.tableAt b := by
      rw [disown_eq, (hw.abandon a).tableAt_dropAll hb', tableAt_abandon, if_neg (Ne.symm hab)]
    rw [disown_eq b, htable, disown_eq a]
    exact (abandon_dropAll_comm (hw.abandon a) hb' _).dropAll _
  refine (hsplit htu hu).trans (Alike.trans ?_ (hsplit (Ne.symm htu) ht).symm)
  refine (dropAll_comm ((hw.abandon t).abandon u) _ _).trans ?_
  exact ((abandon_comm t u w).dropAll _).dropAll _

end World

end Interning
