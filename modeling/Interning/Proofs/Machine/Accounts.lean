import Interning.Proofs.KeyMap
import Interning.Proofs.Machine
import Mathlib.Algebra.BigOperators.Group.Finset.Basic

/-!
# Who has the handles and the owners

Every handle to an instance is in the hand or is an entry of a retaining table, and every owner of a
table is in the hand.  So what is in the hand is there: an instance that a token has a handle to is
live, and a table that a token owns, or has a call on, is owned.

    w.handles i = the handles to i in the hand + w.retained i           (Accounted.handles)
    the owners of a table are those in the hand                         (Accounted.owners)
    a call in progress has an owner of its table in the hand            (Accounted.borrowed)
-/

namespace Interning

/-! ## Algorithm -/

/-- The number of handles to an instance that the entries of a table are. -/
def Table.retains (x : Table) (i : InstanceId) : Nat :=
  match x.storage with
  | .reclaiming => 0
  | .retaining => x.entries.values.count i

/-- The number of handles to an instance that the entries of the tables are. -/
def World.retained (w : World) (i : InstanceId) : Nat :=
  ∑ t ∈ Finset.range w.tables.size, (w.tableAt t).retains i

/-- The number of handles to an instance that some tokens have. -/
def handlesIn (hand : Multiset Token) (i : InstanceId) : Nat :=
  (hand.map fun x => x.handles.count i).sum

/-- The number of owners of a table that some tokens are. -/
def ownersIn (hand : Multiset Token) (t : TableId) : Nat :=
  (hand.map fun x => x.owners.count t).sum

/-- Each handle and each owner is accounted for. -/
structure Machine.Accounted (m : Machine) : Prop where
  handles : ∀ i, m.world.handles i = handlesIn m.hand i + m.world.retained i
  owners : ∀ t, (m.world.tableAt t).owners = ownersIn m.hand t
  borrowed : ∀ x ∈ m.hand, ∀ c, x.call? = some c → .owner c.table ∈ m.hand

/-! ## Lemmas -/

/-! ### Tallies -/

@[simp]
theorem handlesIn_add (h h' : Multiset Token) (i : InstanceId) :
    handlesIn (h + h') i = handlesIn h i + handlesIn h' i := by
  rw [handlesIn, Multiset.map_add, Multiset.sum_add]; rfl

@[simp]
theorem ownersIn_add (h h' : Multiset Token) (t : TableId) :
    ownersIn (h + h') t = ownersIn h t + ownersIn h' t := by
  rw [ownersIn, Multiset.map_add, Multiset.sum_add]; rfl

@[simp]
theorem handlesIn_nil (i : InstanceId) : handlesIn ↑([] : List Token) i = 0 := rfl

@[simp]
theorem ownersIn_nil (t : TableId) : ownersIn ↑([] : List Token) t = 0 := rfl

@[simp]
theorem handlesIn_cons (x : Token) (ts : List Token) (i : InstanceId) :
    handlesIn ↑(x :: ts) i = x.handles.count i + handlesIn ↑ts i := by
  rw [handlesIn, Multiset.map_coe, Multiset.sum_coe, List.map_cons, List.sum_cons]; rfl

@[simp]
theorem ownersIn_cons (x : Token) (ts : List Token) (t : TableId) :
    ownersIn ↑(x :: ts) t = x.owners.count t + ownersIn ↑ts t := by
  rw [ownersIn, Multiset.map_coe, Multiset.sum_coe, List.map_cons, List.sum_cons]; rfl

@[simp]
theorem handlesIn_map_handle (is : List InstanceId) (i : InstanceId) :
    handlesIn ↑(is.map Token.handle) i = is.count i := by
  induction is with
  | nil => rfl
  | cons j is ih =>
    rw [List.map_cons, handlesIn_cons, ih, List.count_cons, Nat.add_comm]
    show _ + List.count i [j] = _
    rw [List.count_singleton]

@[simp]
theorem ownersIn_map_handle (is : List InstanceId) (t : TableId) :
    ownersIn ↑(is.map Token.handle) t = 0 := by
  induction is with
  | nil => rfl
  | cons j is ih => rw [List.map_cons, ownersIn_cons, ih]; rfl

theorem count_le_handlesIn {hand : Multiset Token} {x : Token} (hx : x ∈ hand) (i : InstanceId) :
    x.handles.count i ≤ handlesIn hand i := by
  obtain ⟨rest, rfl⟩ := Multiset.exists_cons_of_mem hx
  rw [handlesIn, Multiset.map_cons, Multiset.sum_cons]
  exact Nat.le_add_right _ _

theorem count_le_ownersIn {hand : Multiset Token} {x : Token} (hx : x ∈ hand) (t : TableId) :
    x.owners.count t ≤ ownersIn hand t := by
  obtain ⟨rest, rfl⟩ := Multiset.exists_cons_of_mem hx
  rw [ownersIn, Multiset.map_cons, Multiset.sum_cons]
  exact Nat.le_add_right _ _

/-! ### What the tables retain -/

namespace World

variable {w w' : World}

theorem retains_of_size_le {t : TableId} (h : w.tables.size ≤ t) (i : InstanceId) :
    (w.tableAt t).retains i = 0 := by
  rw [tableAt, Array.getElem?_eq_none h]; rfl

/-- The sum may run over more tables than there are. -/
theorem retained_eq_sum {n : Nat} (h : w.tables.size ≤ n) (i : InstanceId) :
    w.retained i = ∑ t ∈ Finset.range n, (w.tableAt t).retains i := by
  refine Finset.sum_subset (Finset.range_mono h) fun t _ ht => ?_
  exact retains_of_size_le (by simpa using ht) i

theorem retained_congr {i : InstanceId}
    (h : ∀ t, (w'.tableAt t).retains i = (w.tableAt t).retains i) :
    w'.retained i = w.retained i := by
  rw [retained_eq_sum (Nat.le_max_left w'.tables.size w.tables.size),
    retained_eq_sum (Nat.le_max_right w'.tables.size w.tables.size)]
  exact Finset.sum_congr rfl fun t _ => h t

theorem retains_le_retained {t : TableId} (ht : t < w.tables.size) (i : InstanceId) :
    (w.tableAt t).retains i ≤ w.retained i := by
  rw [retained, ← Finset.add_sum_erase _ _ (Finset.mem_range.2 ht)]
  exact Nat.le_add_right _ _

/-- A change of one table changes what is retained by what that table retains. -/
theorem retained_add_retains {t : TableId} {i : InstanceId}
    (h : ∀ s, s ≠ t → (w'.tableAt s).retains i = (w.tableAt s).retains i) :
    w'.retained i + (w.tableAt t).retains i = w.retained i + (w'.tableAt t).retains i := by
  let n := max (t + 1) (max w'.tables.size w.tables.size)
  have hn : t ∈ Finset.range n := Finset.mem_range.2 (by omega)
  rw [retained_eq_sum (show w'.tables.size ≤ n by omega),
    retained_eq_sum (show w.tables.size ≤ n by omega), ← Finset.add_sum_erase _ _ hn,
    ← Finset.add_sum_erase _ _ hn,
    Finset.sum_congr rfl fun s hs => h s (Finset.ne_of_mem_erase hs)]
  omega

/-- A change that keeps storage and entries changes nothing that is retained. -/
theorem retained_modifyTable {t : TableId} {f : Table → Table} {i : InstanceId}
    (h : ∀ x, (f x).storage = x.storage ∧ (f x).entries = x.entries) :
    (w.modifyTable t f).retained i = w.retained i := by
  refine retained_congr fun s => ?_
  rw [tableAt_modifyTable]
  split
  · rw [Table.retains, Table.retains, (h _).1, (h _).2]
  · rfl

@[simp]
theorem retained_addOwner (t : TableId) (i : InstanceId) :
    (w.addOwner t).retained i = w.retained i := by
  unfold addOwner
  exact retained_modifyTable fun _ => ⟨rfl, rfl⟩

@[simp]
theorem retained_removeOwner (t : TableId) (i : InstanceId) :
    (w.removeOwner t).retained i = w.retained i := by
  unfold removeOwner
  exact retained_modifyTable fun _ => ⟨rfl, rfl⟩

@[simp]
theorem retained_count (t : TableId) (e : Counters.Entry) (i : InstanceId) :
    (w.count t e).retained i = w.retained i := by
  unfold count
  exact retained_modifyTable fun _ => ⟨rfl, rfl⟩

theorem retained_newTable (k : Storage) (capacity : UInt64) (tracked : Bool) (i : InstanceId) :
    (w.newTable k capacity tracked).2.retained i = w.retained i := by
  refine retained_congr fun t => ?_
  rw [tableAt_newTable]
  split
  · next h =>
    rw [retains_of_size_le (Nat.le_of_eq h.symm)]
    cases k <;> rfl
  · rfl

/-- Emptying a retaining table gives back what it retains. -/
theorem retained_clear {t : TableId} (ht : t < w.tables.size)
    (hs : (w.tableAt t).storage = .retaining) (i : InstanceId) :
    (w.modifyEntries t fun _ => ∅).retained i + (w.entries t).values.count i = w.retained i := by
  have h : (w.modifyEntries t fun _ => ∅).retained i + (w.tableAt t).retains i =
      w.retained i + ((w.modifyEntries t fun _ => ∅).tableAt t).retains i :=
    retained_add_retains fun s hs => by rw [modifyEntries, tableAt_modifyTable_of_ne hs]
  have h₁ : (w.tableAt t).retains i = (w.entries t).values.count i := by
    rw [Table.retains, hs]; rfl
  have h₂ : ((w.modifyEntries t fun _ => ∅).tableAt t).retains i = 0 := by
    rw [modifyEntries, tableAt_modifyTable_self ht, Table.retains]
    show (match (w.tableAt t).storage with
      | .reclaiming => 0
      | .retaining => List.count i (KeyMap.values ∅)) = 0
    rw [hs]; rfl
  omega

/-- The entries of a reclaiming table are no handles. -/
theorem retained_modifyEntries_of_reclaiming {t : TableId}
    (hs : (w.tableAt t).storage = .reclaiming)
    (f : KeyMap String InstanceId → KeyMap String InstanceId) (i : InstanceId) :
    (w.modifyEntries t f).retained i = w.retained i := by
  refine retained_congr fun s => ?_
  rw [modifyEntries, tableAt_modifyTable]
  split
  · next h =>
    obtain ⟨rfl, -⟩ := h
    simp only [Table.retains, hs]
  · rfl

@[simp]
theorem retained_withJournal (j : Array Act) (i : InstanceId) :
    (w.withJournal j).retained i = w.retained i := rfl

/-! ### Storing an instance -/

theorem handles_install {x : InstanceId} (t : TableId) (key : String)
    (hx : x < w.instances.size) (i : InstanceId) :
    (w.install t key x).handles i =
      w.handles i + if (w.tableAt t).storage = .retaining ∧ i = x then 1 else 0 := by
  unfold install
  cases h : (w.tableAt t).storage with
  | retaining =>
    show (w.addHandle x).handles i = _
    rw [handles_addHandle hx]
    simp
  | reclaiming =>
    show (w.register x ⟨t, key⟩).handles i = _
    rw [handles_register]
    simp

theorem retained_install {t : TableId} {key : String} (x : InstanceId) (ht : t < w.tables.size)
    (hk : (w.tableAt t).storage = .retaining → (w.entries t).get? key = none) (i : InstanceId) :
    (w.install t key x).retained i =
      w.retained i + if (w.tableAt t).storage = .retaining ∧ i = x then 1 else 0 := by
  have h : (w.install t key x).retained i + (w.tableAt t).retains i =
      w.retained i + ((w.install t key x).tableAt t).retains i :=
    retained_add_retains fun s hs => by rw [tableAt_install ht, if_neg hs]
  have h' : ((w.install t key x).tableAt t).retains i = (w.tableAt t).retains i +
      if (w.tableAt t).storage = .retaining ∧ i = x then 1 else 0 := by
    rw [tableAt_install ht, if_pos rfl]
    cases hs : (w.tableAt t).storage with
    | retaining =>
      simp only [Table.retains, hs]
      rw [KeyMap.values_insert_of_get?_eq_none (hk hs), List.count_cons]
      by_cases hi : i = x
      · simp [hi, entries]
      · simp [hi, Ne.symm hi, entries]
    | reclaiming => simp [Table.retains, hs]
  omega

end World

end Interning
