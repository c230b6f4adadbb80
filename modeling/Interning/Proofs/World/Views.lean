import Interning.World.Call

/-!
# What the steps of a world do to its views

An operation on instances leaves the tables alone, and one on tables leaves the instances alone.
What is left to say is what each does to the instance or the table that it is about:

    (w.addHandle i).handles j = w.handles j + if j = i then 1 else 0     (handles_addHandle)
    (w.loseHandle i).handles j = w.handles j - if j = i then 1 else 0    (handles_loseHandle)
    (w.register i r).registration j = if j = i then some r else w.registration j
                                                                         (registration_register)
    (w.create s).2 has the text s, one handle and no registration at the new index
    (w.modifyEntries t f).entries s = if s = t then f (w.entries s) else w.entries s
                                                                         (entries_modifyEntries)
-/

namespace Interning.World

/-! ## Algorithm -/

/-- Takes a handle from an instance. -/
def loseHandle (i : InstanceId) (w : World) : World :=
  w.modifyInstance i fun x => { x with handles := x.handles - 1 }

/-! ## Lemmas -/

variable {w : World}

/-! ### Instances and tables that are there -/

theorem lt_size_of_handles_pos {i : InstanceId} (h : 0 < w.handles i) : i < w.instances.size := by
  rcases Nat.lt_or_ge i w.instances.size with hi | hi
  · exact hi
  · rw [handles, instanceAt, Array.getElem?_eq_none hi] at h
    exact absurd h (Nat.lt_irrefl 0)

theorem lt_size_of_isLive {i : InstanceId} (h : w.isLive i = true) : i < w.instances.size :=
  lt_size_of_handles_pos (of_decide_eq_true h)

theorem lt_size_of_registration {i : InstanceId} {r : Registration}
    (h : w.registration i = some r) : i < w.instances.size := by
  rcases Nat.lt_or_ge i w.instances.size with hi | hi
  · exact hi
  · rw [registration, instanceAt, Array.getElem?_eq_none hi] at h
    cases h

theorem lt_size_of_isOwned {t : TableId} (h : w.isOwned t = true) : t < w.tables.size := by
  rcases Nat.lt_or_ge t w.tables.size with ht | ht
  · exact ht
  · rw [isOwned, tableAt, Array.getElem?_eq_none ht] at h
    cases h

theorem lt_size_of_entry {t : TableId} {k : String} {i : InstanceId}
    (h : (w.entries t).get? k = some i) : t < w.tables.size := by
  rcases Nat.lt_or_ge t w.tables.size with ht | ht
  · exact ht
  · rw [entries, tableAt, Array.getElem?_eq_none ht] at h
    cases h

/-- A table that is not there is retaining by default. -/
theorem lt_size_of_reclaiming {t : TableId} (h : (w.tableAt t).storage = .reclaiming) :
    t < w.tables.size := by
  rcases Nat.lt_or_ge t w.tables.size with ht | ht
  · exact ht
  · rw [tableAt, Array.getElem?_eq_none ht] at h
    cases h

theorem isLive_iff {i : InstanceId} : w.isLive i = true ↔ 0 < w.handles i :=
  decide_eq_true_iff

theorem isLive_eq_false_iff {i : InstanceId} : w.isLive i = false ↔ w.handles i = 0 := by
  rw [isLive, decide_eq_false_iff_not, Nat.not_lt, Nat.le_zero]

theorem isOwned_iff {t : TableId} : w.isOwned t = true ↔ 0 < (w.tableAt t).owners :=
  decide_eq_true_iff

theorem live?_eq_some_iff {t : TableId} {k : String} {i : InstanceId} :
    w.live? t k = some i ↔ (w.entries t).get? k = some i ∧ w.isLive i = true :=
  Option.filter_eq_some_iff

theorem live?_eq_none_iff {t : TableId} {k : String} :
    w.live? t k = none ↔ ∀ i, (w.entries t).get? k = some i → w.isLive i = false := by
  rw [live?, Option.filter_eq_none_iff]
  exact forall₂_congr fun i _ => Bool.not_eq_true _ ▸ Iff.rfl

/-! ### Instances alone, and tables alone -/

theorem handles_congr {w' : World} (h : w'.instances = w.instances) (i : InstanceId) :
    w'.handles i = w.handles i := by
  rw [handles, instanceAt, h]
  rfl

theorem registration_congr {w' : World} (h : w'.instances = w.instances) (i : InstanceId) :
    w'.registration i = w.registration i := by
  rw [registration, instanceAt, h]
  rfl

theorem text_congr {w' : World} (h : w'.instances = w.instances) (i : InstanceId) :
    w'.text i = w.text i := by
  rw [text, instanceAt, h]
  rfl

theorem tableAt_congr {w' : World} (h : w'.tables = w.tables) (t : TableId) :
    w'.tableAt t = w.tableAt t := by
  rw [tableAt, h]
  rfl

/-! ### Events -/

theorem events_report (e : Event) (w : World) : (w.report e).events = w.events ++ [e] := by
  simp [events, report, note, Act.event?]

/-- An act that reports nothing. -/
theorem events_note {a : Act} (h : a.event? = none) (w : World) :
    (w.note a).events = w.events := by
  simp [events, note, h]

/-! ### One more handle and one less -/

theorem handles_addHandle {i : InstanceId} (hi : i < w.instances.size) (j : InstanceId) :
    (w.addHandle i).handles j = w.handles j + if j = i then 1 else 0 := by
  rw [handles, addHandle, instanceAt_modifyInstance]
  by_cases h : i = j
  · subst h; simp [hi, handles]
  · rw [if_neg (fun hc => h hc.1), if_neg (Ne.symm h)]; rfl

@[simp]
theorem text_addHandle (i j : InstanceId) : (w.addHandle i).text j = w.text j := by
  rw [text, addHandle, instanceAt_modifyInstance]; split <;> rfl

@[simp]
theorem registration_addHandle (i j : InstanceId) :
    (w.addHandle i).registration j = w.registration j := by
  rw [registration, addHandle, instanceAt_modifyInstance]; split <;> rfl

@[simp]
theorem size_modifyInstance (i : InstanceId) (f : Instance → Instance) :
    (w.modifyInstance i f).instances.size = w.instances.size := Array.size_modify ..

@[simp]
theorem size_addHandle (i : InstanceId) : (w.addHandle i).instances.size = w.instances.size :=
  size_modifyInstance ..

theorem isLive_addHandle {i : InstanceId} (hi : w.isLive i = true) (j : InstanceId) :
    (w.addHandle i).isLive j = w.isLive j := by
  rw [isLive, handles_addHandle (lt_size_of_isLive hi)]
  by_cases h : j = i
  · subst h; simpa using hi
  · rw [if_neg h]; rfl

theorem handles_loseHandle (i j : InstanceId) :
    (w.loseHandle i).handles j = w.handles j - if j = i then 1 else 0 := by
  rw [handles, loseHandle, instanceAt_modifyInstance]
  by_cases h : i = j
  · subst h
    by_cases hi : i < w.instances.size
    · simp [hi, handles]
    · simp [hi, handles, instanceAt, default]
  · rw [if_neg (fun hc => h hc.1), if_neg (Ne.symm h)]; rfl

/-- With its last handle an instance goes, and no other one. -/
theorem isLive_loseHandle_of_last {i : InstanceId} (h : w.handles i = 1) (j : InstanceId) :
    (w.loseHandle i).isLive j = (w.isLive j && j != i) := by
  rw [isLive, isLive, handles_loseHandle]
  by_cases hj : j = i
  · subst hj
    simp [h]
  · simp [hj]

/-- With any other handle none goes. -/
theorem isLive_loseHandle_of_ne {i j : InstanceId} (h : j = i → w.handles i ≠ 1) :
    (w.loseHandle i).isLive j = w.isLive j := by
  rw [isLive, isLive, handles_loseHandle, decide_eq_decide]
  by_cases hj : j = i
  · have hn := h hj
    subst hj
    rw [if_pos rfl]
    omega
  · rw [if_neg hj, Nat.sub_zero]

@[simp]
theorem text_loseHandle (i j : InstanceId) : (w.loseHandle i).text j = w.text j := by
  rw [text, loseHandle, instanceAt_modifyInstance]; split <;> rfl

@[simp]
theorem registration_loseHandle (i j : InstanceId) :
    (w.loseHandle i).registration j = w.registration j := by
  rw [registration, loseHandle, instanceAt_modifyInstance]; split <;> rfl

@[simp]
theorem size_loseHandle (i : InstanceId) : (w.loseHandle i).instances.size = w.instances.size :=
  size_modifyInstance ..

/-! ### Registrations -/

@[simp]
theorem handles_register (i : InstanceId) (r : Registration) (j : InstanceId) :
    (w.register i r).handles j = w.handles j := by
  rw [handles, register, instanceAt_modifyInstance]; split <;> rfl

@[simp]
theorem isLive_register (i : InstanceId) (r : Registration) (j : InstanceId) :
    (w.register i r).isLive j = w.isLive j := by
  rw [isLive, handles_register]; rfl

@[simp]
theorem text_register (i : InstanceId) (r : Registration) (j : InstanceId) :
    (w.register i r).text j = w.text j := by
  rw [text, register, instanceAt_modifyInstance]; split <;> rfl

theorem registration_register {i : InstanceId} (hi : i < w.instances.size) (r : Registration)
    (j : InstanceId) :
    (w.register i r).registration j = if j = i then some r else w.registration j := by
  rw [registration, register, instanceAt_modifyInstance]
  by_cases h : i = j
  · subst h; simp [hi]
  · rw [if_neg (fun hc => h hc.1), if_neg (Ne.symm h)]; rfl

@[simp]
theorem size_register (i : InstanceId) (r : Registration) :
    (w.register i r).instances.size = w.instances.size := size_modifyInstance ..

/-! ### New instances -/

@[simp]
theorem create_fst (s : String) : (w.create s).1 = w.instances.size := rfl

@[simp]
theorem size_create (s : String) : (w.create s).2.instances.size = w.instances.size + 1 :=
  Array.size_push ..

/-- Nothing has an index that is still to come. -/
theorem instanceAt_size : w.instanceAt w.instances.size = default := by
  rw [instanceAt, Array.getElem?_eq_none (Nat.le_refl _)]; rfl

theorem handles_create (s : String) (j : InstanceId) :
    (w.create s).2.handles j = w.handles j + if j = w.instances.size then 1 else 0 := by
  rw [handles, instanceAt_create]
  by_cases h : j = w.instances.size
  · subst h; rw [if_pos rfl, if_pos rfl, handles, instanceAt_size]; rfl
  · rw [if_neg h, if_neg h]; rfl

theorem text_create (s : String) (j : InstanceId) :
    (w.create s).2.text j = if j = w.instances.size then s else w.text j := by
  rw [text, instanceAt_create]; split <;> rfl

theorem text_create_of_lt (s : String) {j : InstanceId} (h : j < w.instances.size) :
    (w.create s).2.text j = w.text j := by
  rw [text_create, if_neg (Nat.ne_of_lt h)]

@[simp]
theorem registration_create (s : String) (j : InstanceId) :
    (w.create s).2.registration j = w.registration j := by
  rw [registration, instanceAt_create]
  by_cases h : j = w.instances.size
  · subst h; rw [if_pos rfl, registration, instanceAt_size]; rfl
  · rw [if_neg h]; rfl

theorem registration_size : w.registration w.instances.size = none := by
  rw [registration, instanceAt_size]; rfl

theorem isLive_create (s : String) (j : InstanceId) :
    (w.create s).2.isLive j = (w.isLive j || j == w.instances.size) := by
  rw [isLive, handles_create]
  by_cases h : j = w.instances.size
  · simp [h]
  · simp [h, isLive]

@[simp]
theorem tableAt_create (s : String) (t : TableId) :
    (w.create s).2.tableAt t = w.tableAt t := rfl

/-! ### Tables -/

@[simp]
theorem size_modifyTable (t : TableId) (f : Table → Table) :
    (w.modifyTable t f).tables.size = w.tables.size := Array.size_modify ..

theorem tableAt_modifyTable_of_ne {t s : TableId} (h : s ≠ t) (f : Table → Table) :
    (w.modifyTable t f).tableAt s = w.tableAt s := by
  rw [tableAt_modifyTable, if_neg fun hc => h hc.1.symm]

theorem tableAt_modifyTable_self {t : TableId} (ht : t < w.tables.size) (f : Table → Table) :
    (w.modifyTable t f).tableAt t = f (w.tableAt t) := by
  rw [tableAt_modifyTable, if_pos ⟨rfl, ht⟩]

/-- A change of tables that leaves something about them alone. -/
theorem field_modifyTable {α : Type} (g : Table → α) {f : Table → Table} (h : ∀ x, g (f x) = g x)
    (t s : TableId) : g ((w.modifyTable t f).tableAt s) = g (w.tableAt s) := by
  rw [tableAt_modifyTable]
  split
  · exact h (w.tableAt s)
  · rfl

theorem entries_modifyEntries {t : TableId} (ht : t < w.tables.size)
    (f : KeyMap String InstanceId → KeyMap String InstanceId) (s : TableId) :
    (w.modifyEntries t f).entries s = if s = t then f (w.entries s) else w.entries s := by
  rw [entries, modifyEntries]
  by_cases h : s = t
  · subst h; rw [tableAt_modifyTable_self ht, if_pos rfl]; rfl
  · rw [tableAt_modifyTable_of_ne h, if_neg h]; rfl

@[simp]
theorem handles_modifyEntries (t : TableId)
    (f : KeyMap String InstanceId → KeyMap String InstanceId) (i : InstanceId) :
    (w.modifyEntries t f).handles i = w.handles i := rfl

@[simp]
theorem storage_modifyEntries (t : TableId)
    (f : KeyMap String InstanceId → KeyMap String InstanceId) (s : TableId) :
    ((w.modifyEntries t f).tableAt s).storage = (w.tableAt s).storage :=
  field_modifyTable Table.storage (fun _ => by rfl) t s

@[simp]
theorem owners_modifyEntries (t : TableId)
    (f : KeyMap String InstanceId → KeyMap String InstanceId) (s : TableId) :
    ((w.modifyEntries t f).tableAt s).owners = (w.tableAt s).owners :=
  field_modifyTable Table.owners (fun _ => by rfl) t s

@[simp]
theorem owners_count (t : TableId) (e : Counters.Entry) (s : TableId) :
    ((w.count t e).tableAt s).owners = (w.tableAt s).owners :=
  field_modifyTable Table.owners (fun _ => by rfl) t s

theorem owners_addOwner {t : TableId} (ht : t < w.tables.size) (s : TableId) :
    ((w.addOwner t).tableAt s).owners = (w.tableAt s).owners + if s = t then 1 else 0 := by
  unfold addOwner
  by_cases h : s = t
  · subst h; rw [tableAt_modifyTable_self ht, if_pos rfl]
  · rw [tableAt_modifyTable_of_ne h, if_neg h]; rfl

theorem owners_removeOwner (t s : TableId) :
    ((w.removeOwner t).tableAt s).owners = (w.tableAt s).owners - if s = t then 1 else 0 := by
  rw [removeOwner, tableAt_modifyTable]
  by_cases h : s = t
  · subst h
    by_cases ht : s < w.tables.size
    · simp [ht]
    · simp [ht, tableAt, default]
  · rw [if_neg fun hc => h hc.1.symm, if_neg h]; rfl

@[simp]
theorem storage_removeOwner (t s : TableId) :
    ((w.removeOwner t).tableAt s).storage = (w.tableAt s).storage :=
  field_modifyTable Table.storage (fun _ => by rfl) t s

@[simp]
theorem entries_removeOwner (t s : TableId) :
    ((w.removeOwner t).tableAt s).entries = (w.tableAt s).entries :=
  field_modifyTable Table.entries (fun _ => by rfl) t s

theorem tableAt_newTable (k : Storage) (capacity : UInt64) (tracked : Bool) (t : TableId) :
    (w.newTable k capacity tracked).2.tableAt t =
      if t = w.tables.size then ⟨k, tracked, 1, ∅, {}⟩ else w.tableAt t := by
  simp only [tableAt, newTable, Array.getElem?_push]
  split <;> rfl

/-- A table made is like no table at all in what is the same for both. -/
theorem field_newTable {α : Type} (g : Table → α) {k : Storage} {tracked : Bool}
    (h : g ⟨k, tracked, 1, ∅, {}⟩ = g default) (capacity : UInt64) (t : TableId) :
    g ((w.newTable k capacity tracked).2.tableAt t) = g (w.tableAt t) := by
  rw [tableAt_newTable]
  split
  · next ht =>
    rw [h, tableAt, Array.getElem?_eq_none (Nat.le_of_eq ht.symm)]
    rfl
  · rfl

end Interning.World
