import Interning.Proofs.World.Steps

/-!
# What whole operations do

An operation that is taken as a whole, in a world of any kind, said by what it leaves of each table
and of each instance.

    dropping a handle tells the table where the instance is registered, if the handle was the last
    one and the table is there; no other table changes                      (tableAt_drop)
    a call on a table answers the live instance under its key, or stores one       (intern_cases)
    another table changes only by the handle that the call drops              (tableAt_intern)
-/

namespace Interning

/-! ## Algorithm -/

/-- A table after the reclamation of an instance. -/
def Table.reclaim (x : Table) (key : String) (i : InstanceId) (bytes : UInt64) : Table :=
  { x with
    entries := if x.entries.get? key = some i then x.entries.erase key else x.entries
    counters := x.counters.record (.reclaim (decide (x.entries.get? key = some i)) bytes) }

namespace World

/-- Who is told when a handle to an instance is dropped: the table where it is registered, if the
handle is the last one and the table is there. -/
def told (w : World) (i : InstanceId) : Option Registration :=
  if w.handles i = 1 then (w.registration i).filter fun r => w.isOwned r.table else none

/-- A table after a handle was dropped. -/
def tableAfterDrop (w : World) (i : InstanceId) (s : TableId) : Table :=
  match w.told i with
  | some r =>
    if s = r.table then (w.tableAt s).reclaim r.key i (entryBytes r.key (w.text i))
    else w.tableAt s
  | none => w.tableAt s

end World

/-! ## Lemmas -/

variable {w w' : World}

/-! ### Who is told -/

namespace World

theorem told_congr (hi : w'.instances = w.instances) (i : InstanceId)
    (ht : ∀ r, w.registration i = some r → w'.isOwned r.table = w.isOwned r.table) :
    w'.told i = w.told i := by
  rw [told, told, handles_congr hi, registration_congr hi]
  cases hr : w.registration i with
  | none => rfl
  | some r => simp only [Option.filter_some, ht r hr]

theorem told_eq_some_iff {i : InstanceId} {r : Registration} :
    w.told i = some r ↔
      w.handles i = 1 ∧ w.registration i = some r ∧ w.isOwned r.table = true := by
  rw [told]
  split
  · next h =>
    rw [Option.filter_eq_some_iff]
    exact ⟨fun hr => ⟨h, hr⟩, fun hr => hr.2⟩
  · next h => exact ⟨nofun, fun hr => absurd hr.1 h⟩

end World

/-! ### Reclaiming -/

namespace Reclamation

variable (r : Reclamation) (w : World)

theorem instances_detach : (r.detach w).2.instances = w.instances := by
  obtain ⟨j, he⟩ := r.detach_eq w
  rw [he]
  split <;> rfl

theorem instances_run : (r.run w).instances = w.instances :=
  (r.instances_settle _ _).trans (r.instances_detach w)

theorem tableAt_run (hr : r.table < w.tables.size) (s : TableId) :
    (r.run w).tableAt s =
      if s = r.table then
        { (w.tableAt s).reclaim r.key r.gone (World.entryBytes r.key (w.text r.gone)) with
          owners := (w.tableAt s).owners - 1 }
      else w.tableAt s := by
  have htext : (r.detach w).2.text r.gone = w.text r.gone :=
    World.text_congr (r.instances_detach w) r.gone
  have hrun : (r.run w).tableAt s = (((r.detach w).2.count r.table (.reclaim (r.detach w).1
      (World.entryBytes r.key ((r.detach w).2.text r.gone)))).removeOwner r.table).tableAt s :=
    World.tableAt_congr (r.tables_settle _ (r.detach w).2) s
  rw [hrun, htext]
  obtain ⟨j, he⟩ := r.detach_eq w
  rw [he]
  by_cases hs : s = r.table
  · subst hs
    rw [if_pos rfl, World.removeOwner, World.count]
    split
    · next h =>
      rw [World.tableAt_modifyTable_self, World.tableAt_modifyTable_self,
        World.tableAt_withJournal, World.modifyEntries, World.tableAt_modifyTable_self hr]
      · have h : (w.tableAt r.table).entries.get? r.key = some r.gone := h
        simp [Table.reclaim, h]
      · simpa [World.withJournal, World.modifyEntries] using hr
      · simpa [World.withJournal, World.modifyEntries] using hr
    · next h =>
      rw [World.tableAt_modifyTable_self, World.tableAt_modifyTable_self,
        World.tableAt_withJournal]
      · have h : ¬(w.tableAt r.table).entries.get? r.key = some r.gone := h
        simp [Table.reclaim, h]
      · simpa [World.withJournal] using hr
      · simpa [World.withJournal] using hr
  · rw [if_neg hs, World.removeOwner, World.count, World.tableAt_modifyTable_of_ne hs,
      World.tableAt_modifyTable_of_ne hs]
    split
    · exact World.tableAt_modifyTable_of_ne hs _
    · rfl

theorem tracker_detach : (r.detach w).2.tracker = w.tracker := by
  obtain ⟨j, he⟩ := r.detach_eq w
  rw [he]
  split <;> rfl

theorem isTracked_detach (s : TableId) : (r.detach w).2.isTracked s = w.isTracked s := by
  obtain ⟨j, he⟩ := r.detach_eq w
  rw [he]
  split
  · exact World.field_modifyTable Table.tracked (fun _ => by rfl) r.table s
  · rfl

theorem tracker_run :
    (r.run w).tracker =
      if w.isTracked r.table = true then
        w.tracker.record (-1) (-(World.entryBytes r.key (w.text r.gone)).toInt64)
      else w.tracker := by
  have htext : (r.detach w).2.text r.gone = w.text r.gone :=
    World.text_congr (r.instances_detach w) r.gone
  show (r.settle _ (r.detach w).2).tracker = _
  rw [World.tracker_settle, htext, isTracked_detach, tracker_detach]

end Reclamation

namespace World

/-- Releasing a handle, said by who is told. -/
theorem release_told (i : InstanceId) (w : World) :
    (∃ r j, w.told i = some r ∧
      w.release i = (some ⟨r.table, r.key, i⟩, ((w.loseHandle i).addOwner r.table).withJournal j)) ∨
    (w.told i = none ∧ ∃ j, w.release i = (none, (w.loseHandle i).withJournal j)) := by
  rcases w.release_cases i with ⟨r, j, hi, hr, ho, he⟩ | ⟨hn, j, he⟩
  · exact .inl ⟨r, j, told_eq_some_iff.2 ⟨hi, hr, ho⟩, he⟩
  · refine .inr ⟨?_, j, he⟩
    cases h : w.told i with
    | none => rfl
    | some r =>
      obtain ⟨hi, hr, ho⟩ := told_eq_some_iff.1 h
      cases ho.symm.trans (hn hi r hr)

theorem instances_drop (i : InstanceId) (w : World) :
    (w.drop i).instances = (w.loseHandle i).instances := by
  rcases w.release_told i with ⟨r, j, -, he⟩ | ⟨-, j, he⟩
  · simp only [drop, he, reclaim]
    exact Reclamation.instances_run _ _
  · simp only [drop, he, reclaim]
    rfl

@[simp]
theorem registration_drop (i j : InstanceId) : (w.drop i).registration j = w.registration j :=
  (registration_congr (instances_drop i w) j).trans (registration_loseHandle i j)

@[simp]
theorem text_drop (i j : InstanceId) : (w.drop i).text j = w.text j :=
  (text_congr (instances_drop i w) j).trans (text_loseHandle i j)

theorem handles_drop (i j : InstanceId) :
    (w.drop i).handles j = w.handles j - if j = i then 1 else 0 :=
  (handles_congr (instances_drop i w) j).trans (handles_loseHandle i j)

/-- Dropping a handle changes a table only by the reclamation of that instance. -/
theorem tableAt_drop (i : InstanceId) (s : TableId) (w : World) :
    (w.drop i).tableAt s = w.tableAfterDrop i s := by
  rcases w.release_told i with ⟨r, j, hr, he⟩ | ⟨hn, j, he⟩
  · have howned := (told_eq_some_iff.1 hr).2.2
    have hlt := lt_size_of_isOwned howned
    simp only [drop, he, reclaim, tableAfterDrop, hr]
    rw [Reclamation.tableAt_run]
    · have htext : (((w.loseHandle i).addOwner r.table).withJournal j).text i = w.text i :=
        text_loseHandle i i
      rw [htext, tableAt_withJournal]
      by_cases hs : s = r.table
      · subst hs
        have hown : ((w.loseHandle i).addOwner r.table).tableAt r.table =
            { w.tableAt r.table with owners := (w.tableAt r.table).owners + 1 } :=
          tableAt_modifyTable_self hlt _
        rw [if_pos rfl, if_pos rfl, hown]
        rfl
      · rw [if_neg hs, if_neg hs, addOwner, tableAt_modifyTable_of_ne hs]
        rfl
    · simpa [withJournal, addOwner, loseHandle, modifyInstance] using hlt
  · simp only [drop, he, reclaim, tableAfterDrop, hn]
    rfl

/-- Dropping a handle changes the tracker only by the reclamation of that instance. -/
theorem tracker_drop (i : InstanceId) (w : World) :
    (w.drop i).tracker =
      match w.told i with
      | some r =>
        if w.isTracked r.table = true then
          w.tracker.record (-1) (-(entryBytes r.key (w.text i)).toInt64)
        else w.tracker
      | none => w.tracker := by
  rcases w.release_told i with ⟨r, j, hr, he⟩ | ⟨hn, j, he⟩
  · have htext : (((w.loseHandle i).addOwner r.table).withJournal j).text i = w.text i :=
      text_loseHandle i i
    have htracked : (((w.loseHandle i).addOwner r.table).withJournal j).isTracked r.table =
        w.isTracked r.table := field_modifyTable Table.tracked (fun _ => by rfl) r.table r.table
    simp only [drop, he, reclaim, hr, Reclamation.tracker_run, htext, htracked]
    rfl
  · simp only [drop, he, reclaim, hn]
    rfl

/-- What a reclamation leaves alone about a table, a dropped handle does. -/
theorem field_drop {α : Type} (g : Table → α) (h : ∀ x k i b, g (x.reclaim k i b) = g x)
    (i : InstanceId) (s : TableId) (w : World) :
    g ((w.drop i).tableAt s) = g (w.tableAt s) := by
  rw [tableAt_drop, tableAfterDrop]
  split
  · split
    · exact h _ _ _ _
    · rfl
  · rfl

theorem owners_drop (i : InstanceId) (s : TableId) (w : World) :
    ((w.drop i).tableAt s).owners = (w.tableAt s).owners :=
  field_drop Table.owners (fun _ _ _ _ => rfl) i s w

theorem storage_drop (i : InstanceId) (s : TableId) (w : World) :
    ((w.drop i).tableAt s).storage = (w.tableAt s).storage :=
  field_drop Table.storage (fun _ _ _ _ => rfl) i s w

theorem isTracked_drop (i : InstanceId) (s : TableId) (w : World) :
    (w.drop i).isTracked s = w.isTracked s :=
  field_drop Table.tracked (fun _ _ _ _ => rfl) i s w

theorem isOwned_drop (i : InstanceId) (s : TableId) (w : World) :
    (w.drop i).isOwned s = w.isOwned s := by
  rw [isOwned, owners_drop]
  rfl

theorem instanceAt_drop (i j : InstanceId) (w : World) :
    (w.drop i).instanceAt j =
      { w.instanceAt j with handles := w.handles j - if j = i then 1 else 0 } :=
  (Instance.mk.injEq ..).mpr ⟨text_drop i j, handles_drop i j, registration_drop i j⟩

/-- The entry of another instance stays. -/
theorem get?_drop_of_ne {i j : InstanceId} (h : j ≠ i) {s : TableId} {key : String}
    (he : (w.entries s).get? key = some j) : ((w.drop i).entries s).get? key = some j := by
  have hkeep : ∀ k bytes, ((w.tableAt s).reclaim k i bytes).entries.get? key = some j := by
    intro k bytes
    have he : (w.tableAt s).entries.get? key = some j := he
    rw [Table.reclaim]
    dsimp only
    split
    · next hk =>
      rw [KeyMap.get?_erase, if_neg, he]
      rintro rfl
      exact h (Option.some.inj (he.symm.trans hk))
    · exact he
  rw [entries, tableAt_drop, tableAfterDrop]
  split
  · split
    · exact hkeep _ _
    · exact he
  · exact he

theorem dropAll_cons (i : InstanceId) (is : List InstanceId) (w : World) :
    w.dropAll (i :: is) = (w.drop i).dropAll is := rfl

@[simp]
theorem registration_dropAll (is : List InstanceId) (j : InstanceId) :
    (w.dropAll is).registration j = w.registration j := by
  induction is generalizing w with
  | nil => rfl
  | cons i is ih => rw [dropAll_cons, ih, registration_drop]

@[simp]
theorem text_dropAll (is : List InstanceId) (j : InstanceId) :
    (w.dropAll is).text j = w.text j := by
  induction is generalizing w with
  | nil => rfl
  | cons i is ih => rw [dropAll_cons, ih, text_drop]

theorem handles_dropAll (is : List InstanceId) (j : InstanceId) :
    (w.dropAll is).handles j = w.handles j - is.count j := by
  induction is generalizing w with
  | nil => rfl
  | cons i is ih =>
    rw [dropAll_cons, ih, handles_drop, List.count_cons]
    by_cases h : j = i
    · simp only [h, beq_self_eq_true, if_true]
      omega
    · rw [if_neg h, if_neg (by simpa using Ne.symm h)]
      omega

theorem get?_dropAll_of_notMem {is : List InstanceId} {j : InstanceId} (h : j ∉ is) {s : TableId}
    {key : String} (he : (w.entries s).get? key = some j) :
    ((w.dropAll is).entries s).get? key = some j := by
  induction is generalizing w with
  | nil => exact he
  | cons i is ih =>
    rw [List.mem_cons, not_or] at h
    rw [dropAll_cons]
    exact ih h.2 (get?_drop_of_ne h.1 he)

theorem field_dropAll {α : Type} (g : Table → α) (h : ∀ x k i b, g (x.reclaim k i b) = g x)
    (is : List InstanceId) (s : TableId) (w : World) :
    g ((w.dropAll is).tableAt s) = g (w.tableAt s) := by
  induction is generalizing w with
  | nil => rfl
  | cons i is ih => rw [dropAll_cons, ih, field_drop g h]

/-- Dropping handles leaves a table alone that is gone, or that none of the instances is registered
with. -/
theorem tableAt_dropAll_of_untold {is : List InstanceId} {s : TableId}
    (h : ∀ i ∈ is, ∀ r, w.registration i = some r → r.table = s → w.isOwned s = false) :
    (w.dropAll is).tableAt s = w.tableAt s := by
  induction is generalizing w with
  | nil => rfl
  | cons i is ih =>
    rw [dropAll_cons, ih, tableAt_drop, tableAfterDrop]
    · split
      · next r hr =>
        obtain ⟨-, hr, ho⟩ := told_eq_some_iff.1 hr
        rw [if_neg]
        rintro rfl
        cases ho.symm.trans (h i List.mem_cons_self r hr rfl)
      · rfl
    · intro j hj r hr hs
      rw [registration_drop] at hr
      rw [isOwned, owners_drop]
      exact h j (List.mem_cons_of_mem i hj) r hr hs

/-! ### Calls -/

/-- A call whose key is stored answers the live instance there. -/
theorem intern_of_live? {t : TableId} {f : Normalizer} {a : Argument} {i : InstanceId}
    (h : w.live? t (f.key (a.value w)) = some i) :
    ∃ j, w.intern t f a = (.hit i, (Call.begin t f a w).1.finish (.hit i)
      ((w.addHandle i).withJournal j)) := by
  let c := (Call.begin t f a w).1
  let w₁ := (Call.begin t f a w).2
  have hl : w₁.live? c.table c.key = some i := h
  have hintern : w.intern t f a = c.conclude (c.check w₁).1 (c.check w₁).2 := rfl
  rcases c.check_eq w₁ with ⟨-, i', j, hl', he⟩ | ⟨-, j, he⟩
  · obtain rfl := Option.some.inj (hl.symm.trans hl')
    exact ⟨j, by rw [hintern, he]; rfl⟩
  · have hl₂ : (w₁.withJournal j).live? c.table c.key = some i := h
    obtain ⟨j', he'⟩ := Call.enter_of_some hl₂
    exact ⟨j', by rw [hintern, he]; simp only [Call.conclude, he']; rfl⟩

/-- A call whose key has no live instance stores what it provides. -/
theorem intern_of_none {t : TableId} {f : Normalizer} {a : Argument}
    (h : w.live? t (f.key (a.value w)) = none) :
    ∃ x rejected w₁ j, (Call.begin t f a w).1.Provides w x rejected w₁ ∧
      let o : Outcome := .stored x ((w.entries t).contains (f.key (a.value w))) rejected
      w.intern t f a = (o, (Call.begin t f a w).1.finish o
        ((w₁.install t (f.key (a.value w)) x).withJournal j)) := by
  let c := (Call.begin t f a w).1
  let w₁ := (Call.begin t f a w).2
  have hl : w₁.live? c.table c.key = none := h
  have hintern : w.intern t f a = c.conclude (c.check w₁).1 (c.check w₁).2 := rfl
  rcases c.check_eq w₁ with ⟨-, i', j, hl', -⟩ | ⟨-, j, he⟩
  · cases hl.symm.trans hl'
  · have hl₂ : (w₁.withJournal j).live? c.table c.key = none := h
    obtain ⟨x, rejected, w₂, j', hp, he'⟩ := Call.enter_of_none hl₂
    have hp : c.Provides (w.withJournal j) x rejected w₂ := hp
    obtain ⟨w₃, hq, rfl⟩ := hp.of_withJournal
    refine ⟨x, rejected, w₃, j', hq, ?_⟩
    rw [hintern, he]
    simp only [Call.conclude, he']
    rw [install_withJournal]
    rfl

end World

namespace Call

variable (c : Call) (o : Outcome) (w : World)

@[simp]
theorem registration_finish (j : InstanceId) :
    (c.finish o w).registration j = w.registration j := by
  cases o with
  | hit i =>
    exact (World.registration_dropAll _ j).trans
      (World.registration_congr (c.instances_record (.hit i) w) j)
  | stored x stale rejected =>
    exact (World.registration_congr (c.instances_record _ _) j).trans
      (World.registration_dropAll _ j)

@[simp]
theorem text_finish (j : InstanceId) : (c.finish o w).text j = w.text j := by
  cases o with
  | hit i =>
    exact (World.text_dropAll _ j).trans (World.text_congr (c.instances_record (.hit i) w) j)
  | stored x stale rejected =>
    exact (World.text_congr (c.instances_record _ _) j).trans (World.text_dropAll _ j)

theorem handles_finish (j : InstanceId) :
    (c.finish o w).handles j = w.handles j - (c.discarded o).toList.count j := by
  cases o with
  | hit i =>
    refine (World.handles_dropAll _ j).trans ?_
    rw [World.handles_congr (c.instances_record (.hit i) w)]
  | stored x stale rejected =>
    exact (World.handles_congr (c.instances_record _ _) j).trans (World.handles_dropAll _ j)

/-- The entry of an instance that the call does not drop stays. -/
theorem get?_finish_of_ne {s : TableId} {key : String} {j : InstanceId}
    (hd : c.discarded o ≠ some j) (he : (w.entries s).get? key = some j) :
    ((c.finish o w).entries s).get? key = some j := by
  have hentries : ∀ v : World, (c.record o v).entries s = v.entries s := fun v =>
    (congrArg Table.entries (World.tableAt_congr (c.tables_record o v) s)).trans
      (World.field_modifyTable Table.entries (fun _ => by rfl) c.table s)
  have hmem : j ∉ (c.discarded o).toList := fun hc => hd (Option.mem_toList.1 hc)
  cases o with
  | hit i => exact World.get?_dropAll_of_notMem hmem (by rw [hentries]; exact he)
  | stored x stale rejected =>
    show ((c.record _ (c.discard _ w)).entries s).get? key = some j
    rw [hentries]
    exact World.get?_dropAll_of_notMem hmem he

/-- The counting of a call changes its table only. -/
theorem tableAt_record_of_ne {s : TableId} (hs : s ≠ c.table) :
    (c.record o w).tableAt s = w.tableAt s :=
  (World.tableAt_congr (c.tables_record o w) s).trans (World.tableAt_modifyTable_of_ne hs _)

theorem owners_record (s : TableId) :
    ((c.record o w).tableAt s).owners = (w.tableAt s).owners :=
  (congrArg Table.owners (World.tableAt_congr (c.tables_record o w) s)).trans
    (World.owners_count _ _ s)

theorem isTracked_record (s : TableId) : (c.record o w).isTracked s = w.isTracked s :=
  (congrArg Table.tracked (World.tableAt_congr (c.tables_record o w) s)).trans
    (World.isTracked_count ..)

theorem entries_record (s : TableId) : (c.record o w).entries s = w.entries s :=
  (congrArg Table.entries (World.tableAt_congr (c.tables_record o w) s)).trans
    (World.field_modifyTable Table.entries (fun _ => by rfl) c.table s)

theorem told_record (i : InstanceId) : (c.record o w).told i = w.told i := by
  refine World.told_congr (c.instances_record o w) i fun r _ => ?_
  rw [World.isOwned, c.owners_record]
  rfl

variable {c w}

theorem tableAt_record (ht : c.table < w.tables.size) (x : InstanceId) (stale : Bool)
    (rejected : Option InstanceId) (s : TableId) :
    (c.record (.stored x stale rejected) w).tableAt s =
      if s = c.table then
        { w.tableAt s with
          counters := (w.tableAt s).counters.recordMiss stale
            (World.entryBytes c.key (w.text x)) }
      else w.tableAt s := by
  by_cases hs : s = c.table
  · rw [if_pos hs, hs]
    exact (World.tableAt_congr (c.tables_record _ w) c.table).trans
      (World.tableAt_modifyTable_self ht _)
  · rw [if_neg hs, c.tableAt_record_of_ne _ w hs]

end Call

namespace World

/-- What a dropped handle does to a table depends on that table, on who has owners, and on the
instance. -/
theorem tableAfterDrop_congr {i : InstanceId} {s : TableId} (hh : w'.handles i = w.handles i)
    (hr : w'.registration i = w.registration i) (ht : w'.text i = w.text i)
    (ho : ∀ u, (w'.tableAt u).owners = (w.tableAt u).owners)
    (hs : w'.tableAt s = w.tableAt s) : w'.tableAfterDrop i s = w.tableAfterDrop i s := by
  have htold : w'.told i = w.told i := by
    simp only [told, hh, hr, isOwned, ho]
  rw [tableAfterDrop, tableAfterDrop, htold, hs, ht]

theorem tableAfterDrop_of_handles_ne {i : InstanceId} {s : TableId} (h : w.handles i ≠ 1) :
    w.tableAfterDrop i s = w.tableAt s := by
  rw [tableAfterDrop, told, if_neg h]

end World

/-- What the end of a call does to another table is what the handle does that it drops. -/
theorem Call.tableAt_finish_of_ne (c : Call) (o : Outcome) {s : TableId} (hs : s ≠ c.table)
    (w : World) : (c.finish o w).tableAt s =
      match c.discarded o with
      | some i => w.tableAfterDrop i s
      | none => w.tableAt s := by
  have hdrop : ∀ v : World, v.instances = w.instances →
      (∀ u, (v.tableAt u).owners = (w.tableAt u).owners) → v.tableAt s = w.tableAt s →
      (c.discard o v).tableAt s =
        match c.discarded o with
        | some i => w.tableAfterDrop i s
        | none => w.tableAt s := by
    intro v hi ho hv
    unfold discard
    cases c.discarded o with
    | none => exact hv
    | some i =>
      refine (World.tableAt_drop i s v).trans ?_
      exact World.tableAfterDrop_congr (World.handles_congr hi i) (World.registration_congr hi i)
        (World.text_congr hi i) ho hv
  cases o with
  | hit i =>
    exact hdrop _ (c.instances_record _ w) (c.owners_record _ w) (c.tableAt_record_of_ne _ w hs)
  | stored x stale rejected =>
    exact (c.tableAt_record_of_ne _ _ hs).trans (hdrop w rfl (fun _ => rfl) rfl)

end Interning
