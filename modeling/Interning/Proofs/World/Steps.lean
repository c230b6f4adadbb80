import Interning.Proofs.World.Views

/-!
# What the pieces of the operations do

Each piece of an operation, said without its journal: which of the plain changes of a world it comes
to, and what it answers.

    a look-up answers the live instance under the key and takes a handle to it   (lookup_eq)
    a call that finds nothing stores its argument, a fresh instance or a copy    (enter_of_none)
    releasing the last handle owes a reclamation to the table if there still is one
                                                                                  (release_cases)
    a reclamation erases the entry exactly when it is the instance's own         (detach_eq)
-/

namespace Interning

/-! ## Algorithm -/

namespace World

def withJournal (j : Array Act) (w : World) : World := { w with journal := j }

/-- One more handle to an instance, if there is one. -/
def addHandle? (found : Option InstanceId) (w : World) : World :=
  match found with
  | some i => w.addHandle i
  | none => w

/-- Whether the bytes of a table count in the tracker. -/
def isTracked (w : World) (t : TableId) : Bool := (w.tableAt t).tracked

/-- Stores an instance under a key: a retaining table takes a handle, a reclaiming table registers
the instance. -/
def install (t : TableId) (key : String) (i : InstanceId) (w : World) : World :=
  (match (w.tableAt t).storage with
    | .retaining => w.addHandle i
    | .reclaiming => w.register i ⟨t, key⟩).modifyEntries t fun m => m.insert key i

end World

/-- The instance that a call stores when it finds nothing, the handle it rejects, and the world
where that instance is made. -/
inductive Call.Provides (c : Call) (w : World) : InstanceId → Option InstanceId → World → Prop
  /-- The instance given, which no reclaiming table has registered yet. -/
  | given {i : InstanceId} : c.argument = .handle i →
      ((w.tableAt c.table).storage = .reclaiming → w.registration i = none) → Provides c w i none w
  /-- A fresh instance of the text given. -/
  | fresh {s : String} : c.argument = .text s →
      Provides c w w.instances.size none (w.create s).2
  /-- A copy of the instance given, which is registered already. -/
  | copy {i : InstanceId} : c.argument = .handle i →
      (w.tableAt c.table).storage = .reclaiming → (w.registration i).isSome →
      Provides c w w.instances.size (some i) (w.create (w.text i)).2

/-- What is counted for a call. -/
def Call.counted (c : Call) (o : Outcome) (w : World) : Counters.Entry :=
  match o with
  | .hit _ => .hit
  | .stored canonical stale _ => .miss stale (World.entryBytes c.key (w.text canonical))

/-! ## Lemmas -/

variable {w : World}

/-! ### Journals -/

@[simp]
theorem World.tableAt_withJournal (j : Array Act) (t : TableId) :
    (w.withJournal j).tableAt t = w.tableAt t := rfl

@[simp]
theorem World.handles_withJournal (j : Array Act) (i : InstanceId) :
    (w.withJournal j).handles i = w.handles i := rfl

/-! ### Looking up -/

theorem World.lookup_eq (w : World) (t : TableId) (key : String) :
    ∃ j, w.lookup t key = (w.live? t key, (w.addHandle? (w.live? t key)).withJournal j) := by
  simp only [lookup, locked, live?_note]
  cases w.live? t key with
  | none => exact ⟨_, rfl⟩
  | some i => exact ⟨_, rfl⟩

/-- The look under the read lock, which only a retaining table has. -/
theorem Call.check_eq (c : Call) (w : World) :
    ((w.tableAt c.table).storage = .retaining ∧ ∃ i j, w.live? c.table c.key = some i ∧
      c.check w = (some (.hit i), (w.addHandle i).withJournal j)) ∨
    (((w.tableAt c.table).storage = .reclaiming ∨ w.live? c.table c.key = none) ∧
      ∃ j, c.check w = (none, w.withJournal j)) := by
  simp only [check, World.locked, World.live?_note]
  cases hs : (w.tableAt c.table).storage with
  | reclaiming => exact .inr ⟨.inl rfl, w.journal, rfl⟩
  | retaining =>
    cases h : w.live? c.table c.key with
    | none => exact .inr ⟨.inr rfl, _, rfl⟩
    | some i => exact .inl ⟨rfl, i, _, rfl, rfl⟩

/-! ### Storing -/

namespace Call.Provides

variable {c : Call} {x : InstanceId} {rejected : Option InstanceId} {w₁ : World}

@[simp]
theorem tables (h : c.Provides w x rejected w₁) : w₁.tables = w.tables := by
  cases h <;> rfl

theorem tableAt (h : c.Provides w x rejected w₁) (t : TableId) : w₁.tableAt t = w.tableAt t := by
  cases h <;> rfl

end Call.Provides

theorem Call.store_eq (c : Call) (w : World) :
    ∃ x rejected w₁, c.Provides w x rejected w₁ ∧
      c.store w = (.stored x ((w.entries c.table).contains c.key) rejected,
        w₁.install c.table c.key x) := by
  cases ha : c.argument with
  | text s =>
    refine ⟨_, _, _, .fresh ha, ?_⟩
    simp only [store, ha, Argument.own, World.adopt, World.install]
    cases hs : (w.tableAt c.table).storage <;> simp [hs, World.registration_size]
  | handle i =>
    cases hs : (w.tableAt c.table).storage with
    | retaining =>
      refine ⟨i, none, w, .given ha (fun h => by cases hs.symm.trans h), ?_⟩
      simp only [store, ha, Argument.own, World.adopt, World.install, hs]
    | reclaiming =>
      cases hr : w.registration i with
      | none =>
        refine ⟨i, none, w, .given ha (fun _ => hr), ?_⟩
        simp only [store, ha, Argument.own, World.adopt, World.install, hs, hr]
      | some r =>
        refine ⟨_, some i, _, .copy ha hs (by simp [hr]), ?_⟩
        simp only [store, ha, Argument.own, World.adopt, World.install, hs, hr,
          World.tableAt_create, World.create_fst]

/-- What is provided does not depend on the journal. -/
theorem Call.Provides.of_withJournal {c : Call} {j : Array Act} {x : InstanceId}
    {rejected : Option InstanceId} {w₁ : World} (h : c.Provides (w.withJournal j) x rejected w₁) :
    ∃ w₂, c.Provides w x rejected w₂ ∧ w₁ = w₂.withJournal j := by
  cases h with
  | given ha hr => exact ⟨w, .given ha hr, rfl⟩
  | fresh ha => exact ⟨_, .fresh ha, rfl⟩
  | copy ha hs hr => exact ⟨_, .copy ha hs hr, rfl⟩

theorem World.install_withJournal (t : TableId) (key : String) (i : InstanceId) (w : World)
    (j : Array Act) : (w.withJournal j).install t key i = (w.install t key i).withJournal j := by
  rw [install, install, tableAt_withJournal]
  cases (w.tableAt t).storage <;> rfl

theorem World.tableAt_install {t : TableId} (ht : t < w.tables.size) (key : String)
    (i : InstanceId) (s : TableId) :
    (w.install t key i).tableAt s =
      if s = t then { w.tableAt t with entries := (w.entries t).insert key i }
      else w.tableAt s := by
  rw [install, modifyEntries, tableAt_modifyTable]
  by_cases h : t = s
  · subst h
    cases (w.tableAt t).storage <;> simp [addHandle, register, ht, modifyInstance, tableAt, entries]
  · rw [if_neg fun hc => h hc.1, if_neg (Ne.symm h)]
    cases (w.tableAt t).storage <;> rfl

theorem World.tableAt_install_of_ne {t s : TableId} (h : s ≠ t) (key : String) (i : InstanceId) :
    (w.install t key i).tableAt s = w.tableAt s := by
  rw [install, modifyEntries, tableAt_modifyTable_of_ne h]
  cases (w.tableAt t).storage <;> rfl

theorem World.size_tables_install (t : TableId) (key : String) (i : InstanceId) :
    (w.install t key i).tables.size = w.tables.size := by
  rw [install, modifyEntries, size_modifyTable]
  cases (w.tableAt t).storage <;> rfl

theorem World.storage_install (t : TableId) (key : String) (i : InstanceId) (s : TableId) :
    ((w.install t key i).tableAt s).storage = (w.tableAt s).storage := by
  rw [install, modifyEntries, tableAt_modifyTable]
  cases (w.tableAt t).storage <;> (dsimp only; split <;> rfl)

theorem World.owners_install (t : TableId) (key : String) (i : InstanceId) (s : TableId) :
    ((w.install t key i).tableAt s).owners = (w.tableAt s).owners := by
  rw [install, owners_modifyEntries]
  cases (w.tableAt t).storage <;> rfl

theorem World.get?_install {t : TableId} (ht : t < w.tables.size) (key : String) (i : InstanceId)
    (s : TableId) (k : String) (j : InstanceId) :
    ((w.install t key i).entries s).get? k = some j ↔
      (s = t ∧ k = key ∧ j = i) ∨ (¬(s = t ∧ k = key) ∧ (w.entries s).get? k = some j) := by
  rw [entries, tableAt_install ht]
  by_cases hs : s = t
  · subst hs
    rw [if_pos rfl, KeyMap.get?_insert]
    by_cases hk : k = key
    · simp [hk, eq_comm (a := i)]
    · simp [hk]
  · rw [if_neg hs]
    simp [hs, entries]

theorem World.registration_install {t : TableId} {i : InstanceId} (key : String)
    (hs : (w.tableAt t).storage = .reclaiming) (hi : i < w.instances.size) (j : InstanceId) :
    (w.install t key i).registration j = if j = i then some ⟨t, key⟩ else w.registration j := by
  simp only [install, hs]
  exact registration_register hi ⟨t, key⟩ j

theorem World.text_install (t : TableId) (key : String) (i j : InstanceId) :
    (w.install t key i).text j = w.text j := by
  unfold install
  cases (w.tableAt t).storage with
  | retaining => exact text_addHandle i j
  | reclaiming => exact text_register i ⟨t, key⟩ j

/-- The last look of a call finds a live instance. -/
theorem Call.enter_of_some {c : Call} {i : InstanceId} (h : w.live? c.table c.key = some i) :
    ∃ j, c.enter w = (.hit i, (w.addHandle i).withJournal j) :=
  ⟨_, c.enter_of_live? h⟩

/-- The last look of a call finds nothing: what the call provides is stored. -/
theorem Call.enter_of_none {c : Call} (h : w.live? c.table c.key = none) :
    ∃ x rejected w₁ j, c.Provides w x rejected w₁ ∧
      c.enter w = (.stored x ((w.entries c.table).contains c.key) rejected,
        (w₁.install c.table c.key x).withJournal j) := by
  obtain ⟨x, rejected, w₁, hp, he⟩ := c.store_eq (w.note (.lock c.table))
  obtain ⟨w₂, hq, rfl⟩ : ∃ w₂, c.Provides w x rejected w₂ ∧
      w₁ = w₂.withJournal (w.journal.push (.lock c.table)) := hp.of_withJournal
  rw [World.install_withJournal] at he
  refine ⟨x, rejected, w₂, (w.journal.push (.lock c.table)).push (.unlock c.table), hq, ?_⟩
  simp only [enter, World.locked, World.live?_note, h, he]
  rfl

/-! ### Releasing -/

theorem World.release_cases (i : InstanceId) (w : World) :
    (∃ r j, w.handles i = 1 ∧ w.registration i = some r ∧ w.isOwned r.table = true ∧
      w.release i = (some ⟨r.table, r.key, i⟩, ((w.loseHandle i).addOwner r.table).withJournal j)) ∨
    ((w.handles i = 1 → ∀ r, w.registration i = some r → w.isOwned r.table = false) ∧
      ∃ j, w.release i = (none, (w.loseHandle i).withJournal j)) := by
  unfold release
  by_cases hi : w.handles i = 1
  · simp only [if_pos hi]
    cases hr : w.registration i with
    | none => exact .inr ⟨fun _ r h => (by cases h), _, rfl⟩
    | some r =>
      by_cases ho : w.isOwned r.table = true
      · simp only [if_pos ho]
        exact .inl ⟨r, _, hi, rfl, ho, rfl⟩
      · simp only [if_neg ho]
        refine .inr ⟨fun _ s h => ?_, _, rfl⟩
        obtain rfl := Option.some.inj h
        exact Bool.eq_false_iff.2 ho
  · simp only [if_neg hi]
    exact .inr ⟨fun h => absurd h hi, w.journal, rfl⟩

theorem Reclamation.detach_eq (r : Reclamation) (w : World) :
    ∃ j, r.detach w = if (w.entries r.table).get? r.key = some r.gone
      then (true, (w.modifyEntries r.table fun m => m.erase r.key).withJournal j)
      else (false, w.withJournal j) := by
  refine ⟨(w.journal.push (.lock r.table)).push (.unlock r.table), ?_⟩
  unfold detach World.locked
  by_cases h : (w.entries r.table).get? r.key = some r.gone
  · have h' : ((w.note (.lock r.table)).entries r.table).get? r.key = some r.gone := h
    simp only [if_pos h, if_pos h']
    rfl
  · have h' : ¬((w.note (.lock r.table)).entries r.table).get? r.key = some r.gone := h
    simp only [if_neg h, if_neg h']
    rfl

/-- An owner goes, and with the last one of a retaining table its entries do. -/
theorem World.abandon_eq (t : TableId) (w : World) :
    w.abandon t =
      if (w.tableAt t).owners ≤ 1 ∧ (w.tableAt t).storage = .retaining then
        ((w.entries t).values.reverse, (w.removeOwner t).modifyEntries t fun _ => ∅)
      else ([], w.removeOwner t) := by
  have ho : ((w.removeOwner t).tableAt t).owners = 0 ↔ (w.tableAt t).owners ≤ 1 := by
    rw [owners_removeOwner, if_pos rfl]
    omega
  simp only [abandon, ho, storage_removeOwner, entries_removeOwner]
  rfl

/-! ### Counting -/

/-- The tracker after a gained or a lost entry. -/
theorem World.tracker_accountGain (t : TableId) (bytes : UInt64) (w : World) :
    (w.accountGain t bytes).tracker =
      if (w.tableAt t).tracked then w.tracker.record 1 bytes.toInt64 else w.tracker := by
  unfold accountGain
  split <;> rfl

theorem World.tracker_accountLoss (t : TableId) (bytes : UInt64) (w : World) :
    (w.accountLoss t bytes).tracker =
      if (w.tableAt t).tracked then w.tracker.record (-1) (-bytes.toInt64) else w.tracker := by
  unfold accountLoss
  split <;> rfl

@[simp]
theorem World.instances_accountGain (t : TableId) (bytes : UInt64) (w : World) :
    (w.accountGain t bytes).instances = w.instances := by
  unfold accountGain
  split <;> rfl

@[simp]
theorem World.instances_accountLoss (t : TableId) (bytes : UInt64) (w : World) :
    (w.accountLoss t bytes).instances = w.instances := by
  unfold accountLoss
  split <;> rfl

@[simp]
theorem World.tables_accountGain (t : TableId) (bytes : UInt64) (w : World) :
    (w.accountGain t bytes).tables = w.tables := by
  unfold accountGain
  split <;> rfl

@[simp]
theorem World.tables_accountLoss (t : TableId) (bytes : UInt64) (w : World) :
    (w.accountLoss t bytes).tables = w.tables := by
  unfold accountLoss
  split <;> rfl

theorem Call.instances_record (c : Call) (o : Outcome) (w : World) :
    (c.record o w).instances = w.instances := by
  cases o with
  | hit i => rfl
  | stored i stale rejected =>
    simp only [record]
    cases stale <;> exact World.instances_accountGain ..

theorem Call.tables_record (c : Call) (o : Outcome) (w : World) :
    (c.record o w).tables = (w.count c.table (c.counted o w)).tables := by
  cases o with
  | hit i => rfl
  | stored i stale rejected =>
    simp only [record]
    cases stale <;> exact World.tables_accountGain ..

theorem Reclamation.instances_settle (r : Reclamation) (removed : Bool) (w : World) :
    (r.settle removed w).instances = w.instances :=
  World.instances_accountLoss ..

theorem Reclamation.tables_settle (r : Reclamation) (removed : Bool) (w : World) :
    (r.settle removed w).tables =
      ((w.count r.table (.reclaim removed (World.entryBytes r.key (w.text r.gone)))).removeOwner
        r.table).tables := by
  have h : ∀ u v : World, u.tables = v.tables →
      (u.removeOwner r.table).tables = (v.removeOwner r.table).tables := by
    intro u v huv
    rw [World.removeOwner, World.modifyTable, World.removeOwner, World.modifyTable, huv]
  exact h _ _ (World.tables_accountLoss ..)

theorem World.isTracked_count (t : TableId) (e : Counters.Entry) (u : TableId) :
    (w.count t e).isTracked u = w.isTracked u :=
  World.field_modifyTable Table.tracked (fun _ => by rfl) t u

theorem World.tracker_record (c : Call) (i : InstanceId) (stale : Bool)
    (rejected : Option InstanceId) :
    (c.record (.stored i stale rejected) w).tracker =
      if w.isTracked c.table = true then
        w.tracker.record 1 (entryBytes c.key (w.text i)).toInt64
      else w.tracker := by
  let e : Counters.Entry := .miss stale (entryBytes c.key (w.text i))
  have he : (c.record (.stored i stale rejected) w).tracker =
      ((w.count c.table e).accountGain c.table (entryBytes c.key (w.text i))).tracker := by
    simp only [Call.record]
    cases stale <;> rfl
  rw [he, tracker_accountGain]
  have ht := isTracked_count (w := w) c.table e c.table
  unfold isTracked at ht
  rw [ht]
  rfl

theorem World.tracker_settle (r : Reclamation) (removed : Bool) :
    (r.settle removed w).tracker =
      if w.isTracked r.table = true then
        w.tracker.record (-1) (-(entryBytes r.key (w.text r.gone)).toInt64)
      else w.tracker := by
  let e : Counters.Entry := .reclaim removed (entryBytes r.key (w.text r.gone))
  have he : (r.settle removed w).tracker =
      ((w.count r.table e).accountLoss r.table (entryBytes r.key (w.text r.gone))).tracker := rfl
  rw [he, tracker_accountLoss]
  have ht := isTracked_count (w := w) r.table e r.table
  unfold isTracked at ht
  rw [ht]
  rfl

end Interning
