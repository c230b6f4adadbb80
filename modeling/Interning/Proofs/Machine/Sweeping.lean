import Interning.Proofs.Machine.Prompt

/-!
# Worlds swept of what is gone

Beside a world whose reclamations come late stands the world where they came at once: it has the
same instances and tables, and of the entries it has those that are live.  The pieces of the
operations do the same in both.

    u.live? t k = w.live? t k when u is w, swept                               (Swept.live?)
    a call provides the same in both                                     (Call.Provides.swept)
    taking out the entry of what is gone changes nothing                       (Swept.detach)
-/

namespace Interning

/-! ## Algorithm -/

/-- The second world is the first one with only the live entries in some tables. -/
structure World.Swept (w : World) (p : TableId → Prop) (u : World) : Prop where
  instances : u.instances = w.instances
  size : u.tables.size = w.tables.size
  storage : ∀ t, (u.tableAt t).storage = (w.tableAt t).storage
  tracked : ∀ t, (u.tableAt t).tracked = (w.tableAt t).tracked
  entries : ∀ t, p t → u.entries t = (w.entries t).keep w.isLive

/-! ## Lemmas -/

namespace World

variable {w u w' u' : World} {p q : TableId → Prop}

theorem isLive_of_instances (h : u.instances = w.instances) : u.isLive = w.isLive := by
  funext i
  rw [isLive, isLive, World.handles_congr h i]

namespace Swept

theorem isLive (h : w.Swept p u) : u.isLive = w.isLive := isLive_of_instances h.instances

theorem handles (h : w.Swept p u) (i : InstanceId) : u.handles i = w.handles i :=
  World.handles_congr h.instances i

theorem registration (h : w.Swept p u) (i : InstanceId) :
    u.registration i = w.registration i := by
  simp only [World.registration, instanceAt, h.instances]

theorem text (h : w.Swept p u) (i : InstanceId) : u.text i = w.text i := by
  simp only [World.text, instanceAt, h.instances]

/-- What is found is the same. -/
theorem live? (h : w.Swept p u) {t : TableId} (ht : p t) (k : String) :
    u.live? t k = w.live? t k := by
  rw [World.live?, h.entries t ht, KeyMap.get?_keep, h.isLive, World.live?, Option.filter_filter]
  simp

/-- In the swept world there is no entry where nothing is found. -/
theorem contains_eq_false (h : w.Swept p u) {t : TableId} (ht : p t) {k : String}
    (hf : w.live? t k = none) : (u.entries t).contains k = false := by
  rw [KeyMap.contains_eq_false_iff, h.entries t ht, KeyMap.get?_keep]
  exact hf

/-- It may be said of fewer tables. -/
theorem mono (h : w.Swept p u) (hq : ∀ t, q t → p t) : w.Swept q u :=
  ⟨h.instances, h.size, h.storage, h.tracked, fun t ht => h.entries t (hq t ht)⟩

theorem withJournal (h : w.Swept p u) (a b : Array Act) :
    (w.withJournal a).Swept p (u.withJournal b) :=
  ⟨h.instances, h.size, h.storage, h.tracked, h.entries⟩

/-- A change of instances that changes no entry from live to gone or back. -/
theorem of_instances (h : w.Swept p u) (hi : u'.instances = w'.instances)
    (hw : w'.tables = w.tables) (hu : u'.tables = u.tables)
    (hl : ∀ t k i, p t → (w.entries t).get? k = some i → w.isLive i = w'.isLive i) :
    w'.Swept p u' := by
  have hwt : ∀ t, w'.tableAt t = w.tableAt t := fun t => by rw [tableAt, tableAt, hw]
  have hut : ∀ t, u'.tableAt t = u.tableAt t := fun t => by rw [tableAt, tableAt, hu]
  refine ⟨hi, by rw [hw, hu, h.size], fun t => by rw [hwt, hut, h.storage],
    fun t => by rw [hwt, hut, h.tracked], fun t ht => ?_⟩
  have he := h.entries t ht
  unfold World.entries at he
  rw [World.entries, World.entries, hwt, hut, he]
  exact KeyMap.keep_congr fun k i hk => hl t k i ht hk

/-- A change of tables that keeps their entries. -/
theorem of_tables (h : w.Swept p u) (hw : w'.instances = w.instances)
    (hu : u'.instances = u.instances) (hws : w'.tables.size = w.tables.size)
    (hus : u'.tables.size = u.tables.size)
    (hwt : ∀ t, (w'.tableAt t).storage = (w.tableAt t).storage ∧
      (w'.tableAt t).tracked = (w.tableAt t).tracked ∧ w'.entries t = w.entries t)
    (hut : ∀ t, (u'.tableAt t).storage = (u.tableAt t).storage ∧
      (u'.tableAt t).tracked = (u.tableAt t).tracked ∧ u'.entries t = u.entries t) :
    w'.Swept p u' where
  instances := by rw [hw, hu, h.instances]
  size := by rw [hws, hus, h.size]
  storage t := by rw [(hwt t).1, (hut t).1, h.storage]
  tracked t := by rw [(hwt t).2.1, (hut t).2.1, h.tracked]
  entries t ht := by rw [(hwt t).2.2, (hut t).2.2, h.entries t ht, isLive_of_instances hw]

theorem addHandle (h : w.Swept p u) {i : InstanceId} (hi : w.isLive i = true) :
    (w.addHandle i).Swept p (u.addHandle i) := by
  refine h.of_instances ?_ rfl rfl fun t k j _ _ => (isLive_addHandle hi j).symm
  simp only [World.addHandle, modifyInstance, h.instances]

theorem create (h : w.Swept p u) (s : String)
    (hw : ∀ t k i, (w.entries t).get? k = some i → i < w.instances.size) :
    (w.create s).2.Swept p (u.create s).2 := by
  refine h.of_instances ?_ rfl rfl fun t k i _ hk => ?_
  · show u.instances.push _ = w.instances.push _
    rw [h.instances]
  · rw [isLive_create, beq_false_of_ne (Nat.ne_of_lt (hw t k i hk)), Bool.or_false]

end Swept

/-! The fields of a table that sweeping asks about are kept where only owners or counters change. -/

theorem kept_addOwner (t s : TableId) :
    ((w.addOwner t).tableAt s).storage = (w.tableAt s).storage ∧
      ((w.addOwner t).tableAt s).tracked = (w.tableAt s).tracked ∧
      (w.addOwner t).entries s = w.entries s := by
  rw [World.entries, addOwner, tableAt_modifyTable]
  split <;> exact ⟨rfl, rfl, rfl⟩

theorem kept_removeOwner (t s : TableId) :
    ((w.removeOwner t).tableAt s).storage = (w.tableAt s).storage ∧
      ((w.removeOwner t).tableAt s).tracked = (w.tableAt s).tracked ∧
      (w.removeOwner t).entries s = w.entries s := by
  rw [World.entries, removeOwner, tableAt_modifyTable]
  split <;> exact ⟨rfl, rfl, rfl⟩

theorem kept_count (t : TableId) (e : Counters.Entry) (s : TableId) :
    ((w.count t e).tableAt s).storage = (w.tableAt s).storage ∧
      ((w.count t e).tableAt s).tracked = (w.tableAt s).tracked ∧
      (w.count t e).entries s = w.entries s := by
  rw [World.entries, count, tableAt_modifyTable]
  split <;> exact ⟨rfl, rfl, rfl⟩

namespace Swept

theorem addOwner (h : w.Swept p u) (t : TableId) : (w.addOwner t).Swept p (u.addOwner t) :=
  h.of_tables rfl rfl (size_modifyTable ..) (size_modifyTable ..) (kept_addOwner t)
    (kept_addOwner t)

theorem removeOwner (h : w.Swept p u) (t : TableId) : (w.removeOwner t).Swept p (u.removeOwner t) :=
  h.of_tables rfl rfl (size_modifyTable ..) (size_modifyTable ..) (kept_removeOwner t)
    (kept_removeOwner t)

theorem newTable (h : w.Swept p u) (k : Storage) (capacity : UInt64) (tracked : Bool) :
    (w.newTable k capacity tracked).2.Swept p (u.newTable k capacity tracked).2 where
  instances := h.instances
  size := by
    show (u.tables.push _).size = (w.tables.push _).size
    rw [Array.size_push, Array.size_push, h.size]
  storage t := by
    rw [tableAt_newTable, tableAt_newTable, h.size]
    split
    · rfl
    · exact h.storage t
  tracked t := by
    rw [tableAt_newTable, tableAt_newTable, h.size]
    split
    · rfl
    · exact h.tracked t
  entries t ht := by
    rw [World.entries, World.entries, tableAt_newTable, tableAt_newTable, h.size]
    split
    · rfl
    · exact h.entries t ht

/-- Emptying a table empties both. -/
theorem clear (h : w.Swept p u) (t : TableId) :
    (w.modifyEntries t fun _ => ∅).Swept p (u.modifyEntries t fun _ => ∅) where
  instances := h.instances
  size := by rw [modifyEntries, modifyEntries, size_modifyTable, size_modifyTable, h.size]
  storage s := by rw [storage_modifyEntries, storage_modifyEntries, h.storage]
  tracked s := by
    rw [modifyEntries, modifyEntries, tableAt_modifyTable, tableAt_modifyTable, h.size]
    split <;> exact h.tracked s
  entries s hs := by
    have he := h.entries s hs
    unfold World.entries at he ⊢
    rw [modifyEntries, modifyEntries, tableAt_modifyTable, tableAt_modifyTable, h.size]
    split
    · rfl
    · exact he

/-- Both worlds store an instance alike. -/
theorem install (h : w.Swept p u) {t : TableId} (hp : p t) (ht : t < w.tables.size) (key : String)
    {x : InstanceId} (hx : w.isLive x = true) :
    (w.install t key x).Swept p (u.install t key x) where
  instances := by
    rw [World.install, World.install, h.storage]
    cases (w.tableAt t).storage <;>
      simp only [World.addHandle, World.register, modifyEntries, modifyTable, modifyInstance,
        h.instances]
  size := by rw [size_tables_install, size_tables_install, h.size]
  storage s := by rw [storage_install, storage_install, h.storage]
  tracked s := by
    rw [tableAt_install ht, tableAt_install (h.size ▸ ht)]
    split
    · exact h.tracked t
    · exact h.tracked s
  entries s hs := by
    have hl : (w.install t key x).isLive = w.isLive := funext fun i => isLive_install hx i
    rw [hl, World.entries, World.entries, tableAt_install ht, tableAt_install (h.size ▸ ht)]
    split
    · show (u.entries t).insert key x = ((w.entries t).insert key x).keep w.isLive
      rw [KeyMap.keep_insert hx, h.entries t hp]
    · exact h.entries s hs

end Swept

end World

namespace Call

variable {w u w₁ u₁ : World} {p : TableId → Prop} {c : Call} {x y : InstanceId}
variable {rejected rejected' : Option InstanceId}

/-- What a call provides is determined. -/
theorem Provides.unique (h : c.Provides w x rejected w₁) (h' : c.Provides w y rejected' u₁) :
    x = y ∧ rejected = rejected' ∧ w₁ = u₁ := by
  cases h with
  | given ha hr =>
    cases h' with
    | given ha' =>
      obtain rfl := Argument.handle.inj (ha.symm.trans ha')
      exact ⟨rfl, rfl, rfl⟩
    | fresh ha' => cases ha.symm.trans ha'
    | copy ha' hs hr' =>
      obtain rfl := Argument.handle.inj (ha.symm.trans ha')
      rw [hr hs] at hr'
      cases hr'
  | fresh ha =>
    cases h' with
    | given ha' => cases ha.symm.trans ha'
    | fresh ha' =>
      obtain rfl := Argument.text.inj (ha.symm.trans ha')
      exact ⟨rfl, rfl, rfl⟩
    | copy ha' => cases ha.symm.trans ha'
  | copy ha hs hr =>
    cases h' with
    | given ha' hr' =>
      obtain rfl := Argument.handle.inj (ha.symm.trans ha')
      rw [hr' hs] at hr
      cases hr
    | fresh ha' => cases ha.symm.trans ha'
    | copy ha' =>
      obtain rfl := Argument.handle.inj (ha.symm.trans ha')
      exact ⟨rfl, rfl, rfl⟩

/-- A call provides the same in a swept world. -/
theorem Provides.swept (h : w.Swept p u)
    (hw : ∀ t k i, (w.entries t).get? k = some i → i < w.instances.size)
    (hp : c.Provides w x rejected w₁) (hq : c.Provides u y rejected' u₁) :
    y = x ∧ rejected' = rejected ∧ w₁.Swept p u₁ := by
  have hsize : u.instances.size = w.instances.size := by rw [h.instances]
  have hs := h.storage c.table
  cases hp with
  | given ha hr =>
    obtain ⟨rfl, rfl, rfl⟩ :=
      hq.unique (.given ha fun hc => (h.registration x).trans (hr (hs.symm.trans hc)))
    exact ⟨rfl, rfl, h⟩
  | fresh ha =>
    obtain ⟨rfl, rfl, rfl⟩ := hq.unique (.fresh ha)
    exact ⟨hsize, rfl, h.create _ hw⟩
  | @copy i ha hc hr =>
    obtain ⟨rfl, rfl, rfl⟩ :=
      hq.unique (.copy ha (hs.trans hc) ((h.registration i).symm ▸ hr))
    rw [h.text]
    exact ⟨hsize, rfl, h.create _ hw⟩

end Call

namespace World.Swept

variable {w u : World} {p : TableId → Prop}

/-- Only instances and tables count. -/
theorem congr {w' u' : World} (h : w.Swept p u) (hwi : w'.instances = w.instances)
    (hwt : w'.tables = w.tables) (hui : u'.instances = u.instances)
    (hut : u'.tables = u.tables) : w'.Swept p u' := by
  have hw : w' = { w with tracker := w'.tracker, journal := w'.journal } := by
    cases w'; cases w; cases hwi; cases hwt; rfl
  have hu : u' = { u with tracker := u'.tracker, journal := u'.journal } := by
    cases u'; cases u; cases hui; cases hut; rfl
  rw [hw, hu]
  exact ⟨h.instances, h.size, h.storage, h.tracked, h.entries⟩

theorem count (h : w.Swept p u) (t : TableId) (e e' : Counters.Entry) :
    (w.count t e).Swept p (u.count t e') :=
  h.of_tables rfl rfl (size_modifyTable ..) (size_modifyTable ..) (kept_count t e) (kept_count t e')

theorem record (h : w.Swept p u) (c : Call) (o o' : Outcome) :
    (c.record o w).Swept p (c.record o' u) :=
  (h.count c.table (c.counted o w) (c.counted o' u)).congr (c.instances_record o w)
    (c.tables_record o w) (c.instances_record o' u) (c.tables_record o' u)

/-- To take out the entry of an instance that is gone changes nothing that is live. -/
theorem detach (h : w.Swept p u) {r : Reclamation} (hr : w.isLive r.gone = false) :
    ((Step.detach r).effect w).world.Swept p u := by
  by_cases hown : (w.entries r.table).get? r.key = some r.gone
  · have ht := lt_size_of_entry hown
    have herase : (w.modifyEntries r.table fun m => m.erase r.key).Swept p u := by
      refine ⟨h.instances, ?_, fun t => ?_, fun t => ?_, fun t hp => ?_⟩
      · rw [modifyEntries, size_modifyTable]
        exact h.size
      · rw [storage_modifyEntries]
        exact h.storage t
      · rw [modifyEntries, tableAt_modifyTable]
        split <;> exact h.tracked t
      · rw [h.entries t hp, entries_modifyEntries ht]
        split
        · next htr =>
          subst htr
          rw [KeyMap.keep_erase]
          refine (KeyMap.eq_of_toList (KeyMap.toList_erase_of_get?_eq_none ?_)).symm
          rw [KeyMap.get?_keep, hown]
          exact Option.filter_some_neg hr
        · rfl
    obtain ⟨j, he⟩ := Step.effect_detach_of_own hown
    rw [he]
    exact herase.withJournal j u.journal
  · obtain ⟨j, he⟩ := Step.effect_detach_of_other hown
    rw [he]
    exact h.withJournal j u.journal

/-- The counting of a reclamation keeps what sweeping asks about. -/
theorem kept_settle (r : Reclamation) (removed : Bool) (w : World) (t : TableId) :
    ((r.settle removed w).tableAt t).storage = (w.tableAt t).storage ∧
      ((r.settle removed w).tableAt t).tracked = (w.tableAt t).tracked ∧
      (r.settle removed w).entries t = w.entries t := by
  let e : Counters.Entry := .reclaim removed (entryBytes r.key (w.text r.gone))
  have he : (r.settle removed w).tableAt t =
      ((w.count r.table e).removeOwner r.table).tableAt t := by
    rw [tableAt, tableAt, r.tables_settle]
  obtain ⟨h₁, h₂, h₃⟩ := kept_removeOwner (w := w.count r.table e) r.table t
  obtain ⟨h₄, h₅, h₆⟩ := kept_count (w := w) r.table e t
  unfold World.entries at h₃ ⊢
  rw [he]
  exact ⟨h₁.trans h₄, h₂.trans h₅, h₃.trans h₆⟩

theorem size_settle (r : Reclamation) (removed : Bool) (w : World) :
    (r.settle removed w).tables.size = w.tables.size := by
  rw [r.tables_settle, World.removeOwner, size_modifyTable, World.count, size_modifyTable]

/-- It does not matter on which side a reclamation is counted. -/
theorem settle_left (h : w.Swept p u) (r : Reclamation) (removed : Bool) :
    (r.settle removed w).Swept p u :=
  h.of_tables (r.instances_settle removed w) rfl (size_settle r removed w) rfl
    (kept_settle r removed w) fun _ => ⟨rfl, rfl, rfl⟩

theorem settle_right (h : w.Swept p u) (r : Reclamation) (removed : Bool) :
    w.Swept p (r.settle removed u) :=
  h.of_tables rfl (r.instances_settle removed u) rfl (size_settle r removed u)
    (fun _ => ⟨rfl, rfl, rfl⟩) (kept_settle r removed u)

theorem addOwner_left (h : w.Swept p u) (t : TableId) : (w.addOwner t).Swept p u :=
  h.of_tables rfl rfl (size_modifyTable ..) rfl (kept_addOwner t) fun _ => ⟨rfl, rfl, rfl⟩

theorem addOwner_right (h : w.Swept p u) (t : TableId) : w.Swept p (u.addOwner t) :=
  h.of_tables rfl rfl rfl (size_modifyTable ..) (fun _ => ⟨rfl, rfl, rfl⟩) (kept_addOwner t)

/-- The release of a handle that is not the last one to anything stored. -/
theorem loseHandle (h : w.Swept p u) {i : InstanceId}
    (hi : ∀ t k, p t → (w.entries t).get? k = some i → 2 ≤ w.handles i) :
    (w.loseHandle i).Swept p (u.loseHandle i) := by
  refine h.of_instances ?_ rfl rfl fun t k j ht hk => ?_
  · simp only [World.loseHandle, modifyInstance, h.instances]
  · refine (isLive_loseHandle_of_ne fun hj => ?_).symm
    subst hj
    have h₂ := hi t k ht hk
    omega

/-- With the last handle to an instance its only entry goes. -/
theorem lastRelease (h : w.Swept p u) {t : TableId} {k : String} {i : InstanceId} (ht : p t)
    (hi : w.handles i = 1) (hk : (w.entries t).get? k = some i)
    (hu : ∀ t' k', p t' → (w.entries t').get? k' = some i → t' = t ∧ k' = k) :
    (w.loseHandle i).Swept p ((u.loseHandle i).modifyEntries t fun m => m.erase k) := by
  have hlive := isLive_loseHandle_of_last hi
  have hut : t < (u.loseHandle i).tables.size := by
    show t < u.tables.size
    rw [h.size]
    exact lt_size_of_entry hk
  refine ⟨?_, ?_, fun s => ?_, fun s => ?_, fun s hs => ?_⟩
  · show (u.loseHandle i).instances = (w.loseHandle i).instances
    simp only [World.loseHandle, modifyInstance, h.instances]
  · rw [modifyEntries, size_modifyTable]
    exact h.size
  · rw [storage_modifyEntries]
    exact h.storage s
  · rw [modifyEntries, tableAt_modifyTable]
    split <;> exact h.tracked s
  · have hkeep : (w.entries s).keep (w.loseHandle i).isLive =
        (u.entries s).keep fun j => j != i := by
      rw [h.entries s hs, KeyMap.keep_keep]
      exact KeyMap.keep_congr fun k' j _ => hlive j
    rw [entries_modifyEntries hut]
    refine Eq.trans ?_ hkeep.symm
    show (if s = t then (u.entries s).erase k else u.entries s) = _
    split
    · next hst =>
      subst hst
      refine KeyMap.erase_eq_keep ?_ fun k' hk' => ?_
      · rw [h.entries s hs, KeyMap.get?_keep, hk]
        exact Option.filter_some_pos (isLive_iff.2 (by omega))
      · rw [h.entries s hs, KeyMap.get?_keep] at hk'
        exact (hu s k' hs (Option.filter_eq_some_iff.1 hk').1).2
    · next hst =>
      refine (KeyMap.keep_eq_self fun k' j hk' => bne_iff_ne.2 fun hj => hst ?_).symm
      rw [h.entries s hs, KeyMap.get?_keep, hj] at hk'
      exact (hu s k' hs (Option.filter_eq_some_iff.1 hk').1).1

end World.Swept

end Interning
