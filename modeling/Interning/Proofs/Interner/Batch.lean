import Interning.Proofs.KeyMap
import Interning.Proofs.Machine.Lending
import Interning.Proofs.Text.CaseFold
import Mathlib.Algebra.BigOperators.Ring.Finset

/-!
# Batches

A list of values is interned into a vacant table, in whatever order.  Which call is the miss for a
key, and which text becomes the canonical one, is a matter of the order; how many there are, and
which positions have one instance, is not.

    an answer is what is stored under the key of the value              (Stocked.answers)
    what is stored has the earliest text of its key                        (Stocked.entry)
    entries = misses = keys; hits = values - keys              (Stocked.size, Stocked.counters)
    one instance ↔ one key                                            (Stocked.answer_eq_iff)
    two orders of one batch, in one mode or in two                  (batch_order_free)
-/

namespace Interning

/-! ## Algorithm -/

structure Item where
  value : String
  /-- Whether a value is made and given up, or the text is lent. -/
  given : Bool
  /-- Whether the handle answered is held, or dropped at once. -/
  held : Bool
  deriving DecidableEq, Repr

namespace Normalizer

def keysOf (f : Normalizer) (xs : List Item) : Finset String :=
  (xs.map fun x => f.key x.value).toFinset

/-- The earliest value of a batch that has a key. -/
def earliest? (f : Normalizer) (xs : List Item) (key : String) : Option String :=
  (xs.map Item.value).find? fun v => f.key v = key

/-- The bytes of the keys of a batch and of their earliest values. -/
def bytesOf (f : Normalizer) (xs : List Item) : Nat :=
  ∑ k ∈ f.keysOf xs, (k.utf8ByteSize + ((f.earliest? xs k).getD "").utf8ByteSize)

end Normalizer

/-- A table that is there, where nothing was done yet. -/
structure World.Vacant (w : World) (t : TableId) : Prop where
  table : t < w.tables.size
  entries : w.entries t = ∅
  counters : (w.tableAt t).counters = {}

namespace Interner

def internItem (n : Interner) (x : Item) (w : World) : InstanceId × World :=
  let (i, w) := if x.given then n.internGiven x.value w else n.intern (.text x.value) w
  (i, if x.held then w else w.drop i)

/-- Interns the values of a batch in order. -/
def internAll (n : Interner) : List Item → World → List InstanceId × World
  | [], w => ([], w)
  | x :: xs, w =>
    let (i, w) := n.internItem x w
    let (is, w) := n.internAll xs w
    (i :: is, w)

end Interner

/-- What interning one value does to a table, and to what is live. -/
structure World.Settles (w : World) (t : TableId) (key value : String) (i : InstanceId)
    (w' : World) : Prop where
  size : w'.tables.size = w.tables.size
  live : w'.isLive i = true
  kept : ∀ j, w.isLive j = true → w'.isLive j = true ∧ w'.text j = w.text j
  found : ∀ j, w.live? t key = some j → i = j ∧
    w'.tableAt t = { w.tableAt t with counters := (w.tableAt t).counters.recordHit }
  stored : w.live? t key = none → w'.text i = value ∧
    w'.tableAt t = { w.tableAt t with
      entries := (w.entries t).insert key i
      counters := (w.tableAt t).counters.recordMiss ((w.entries t).contains key)
        (entryBytes key value) }

/-- Where a table stands that was vacant before a batch. -/
structure Interner.Stocked (n : Interner) (t : TableId) (xs : List Item) (is : List InstanceId)
    (w : World) : Prop where
  table : t < w.tables.size
  /-- What was answered for a value is stored under its key. -/
  answers : is.map some = xs.map fun x => (w.entries t).get? (n.normalizer.key x.value)
  /-- What is stored is live, and has the earliest text of its key. -/
  entry : ∀ k i, (w.entries t).get? k = some i →
    w.isLive i = true ∧ n.normalizer.earliest? xs k = some (w.text i)
  size : w.size t = (n.normalizer.keysOf xs).card
  hits : (w.tableAt t).counters.hits = .ofNat (xs.length - (n.normalizer.keysOf xs).card)
  misses : (w.tableAt t).counters.misses = .ofNat (n.normalizer.keysOf xs).card
  bytes : (w.tableAt t).counters.bytes = .ofNat (n.normalizer.bytesOf xs)

namespace Interner

/-- A batch is to be interned into a vacant table; if the table is a reclaiming one, what is
answered is held. -/
structure Ready (n : Interner) (t : TableId) (xs : List Item) (w : World) : Prop where
  strategy : n.strategy = .table t
  vacant : w.Vacant t
  held : (w.tableAt t).storage = .reclaiming → ∀ x ∈ xs, x.held = true

/-- What a batch leaves in a table that was vacant. -/
structure Batched (n : Interner) (t : TableId) (xs : List Item) (w : World) : Prop where
  /-- What is stored are the keys of the values. -/
  keys : ∀ k, ((n.internAll xs w).2.entries t).contains k = true ↔ k ∈ n.normalizer.keysOf xs
  size : (n.internAll xs w).2.size t = (n.normalizer.keysOf xs).card
  misses : ((n.internAll xs w).2.tableAt t).counters.misses =
    .ofNat (n.normalizer.keysOf xs).card
  hits : ((n.internAll xs w).2.tableAt t).counters.hits =
    .ofNat (xs.length - (n.normalizer.keysOf xs).card)
  /-- Each value is answered, and two are answered one instance exactly if their keys are equal. -/
  length : (n.internAll xs w).1.length = xs.length
  identity : ∀ (p q : ℕ) (x y : Item), xs[p]? = some x → xs[q]? = some y →
    ((n.internAll xs w).1[p]? = (n.internAll xs w).1[q]? ↔
      n.normalizer.key x.value = n.normalizer.key y.value)
  /-- What is answered has the text of the earliest value with that key. -/
  earliest : ∀ (p : ℕ) (x : Item) (i : InstanceId), xs[p]? = some x →
    (n.internAll xs w).1[p]? = some i →
      n.normalizer.earliest? xs (n.normalizer.key x.value) = some ((n.internAll xs w).2.text i)
  /-- With a normalizer that a configuration can name, the bytes are those of the keys, twice. -/
  bytes : ∀ kind : Normalization, n.normalizer = kind.normalizer →
    ((n.internAll xs w).2.tableAt t).counters.bytes =
      .ofNat (2 * ∑ k ∈ n.normalizer.keysOf xs, k.utf8ByteSize)

end Interner

/-- Two tables store the same keys and have counted the same. -/
structure Table.Agree (x y : Table) : Prop where
  keys : ∀ k, x.entries.contains k = y.entries.contains k
  size : x.entries.size = y.entries.size
  hits : x.counters.hits = y.counters.hits
  misses : x.counters.misses = y.counters.misses

/-! ## Lemmas -/

/-! ### Keys and earliest values -/

namespace Normalizer

variable {f : Normalizer} {xs : List Item} {x : Item} {key : String}

theorem mem_keysOf : key ∈ f.keysOf xs ↔ ∃ x ∈ xs, f.key x.value = key := by
  rw [keysOf, List.mem_toFinset, List.mem_map]

theorem keysOf_concat (f : Normalizer) (xs : List Item) (x : Item) :
    f.keysOf (xs ++ [x]) = insert (f.key x.value) (f.keysOf xs) := by
  ext k
  simp [keysOf, eq_comm]

theorem card_keysOf_le (f : Normalizer) (xs : List Item) : (f.keysOf xs).card ≤ xs.length :=
  Nat.le_trans (List.toFinset_card_le _) (by rw [List.length_map])

theorem earliest?_concat (f : Normalizer) (xs : List Item) (x : Item) (key : String) :
    f.earliest? (xs ++ [x]) key =
      (f.earliest? xs key).or (if f.key x.value = key then some x.value else none) := by
  rw [earliest?, List.map_append, List.find?_append]
  congr 1
  by_cases h : f.key x.value = key <;> simp [h]

theorem earliest?_eq_none_iff : f.earliest? xs key = none ↔ key ∉ f.keysOf xs := by
  rw [earliest?, List.find?_eq_none, mem_keysOf]
  simp

theorem key_earliest? {value : String} (h : f.earliest? xs key = some value) :
    f.key value = key := by
  simpa using List.find?_some h

/-- A later value changes nothing for a key that was there. -/
theorem earliest?_concat_of_mem (h : key ∈ f.keysOf xs) (x : Item) :
    f.earliest? (xs ++ [x]) key = f.earliest? xs key := by
  rw [earliest?_concat]
  cases he : f.earliest? xs key with
  | some v => rfl
  | none => exact absurd h (earliest?_eq_none_iff.1 he)

theorem earliest?_concat_of_notMem (h : f.key x.value ∉ f.keysOf xs) :
    f.earliest? (xs ++ [x]) (f.key x.value) = some x.value := by
  rw [earliest?_concat, earliest?_eq_none_iff.2 h, if_pos rfl]
  rfl

/-- A value of a key that was there adds no bytes. -/
theorem bytesOf_concat_of_mem (h : f.key x.value ∈ f.keysOf xs) :
    f.bytesOf (xs ++ [x]) = f.bytesOf xs := by
  rw [bytesOf, bytesOf, keysOf_concat, Finset.insert_eq_of_mem h]
  exact Finset.sum_congr rfl fun k hk => by rw [earliest?_concat_of_mem hk]

/-- A value of a new key adds its bytes and those of the key. -/
theorem bytesOf_concat_of_notMem (h : f.key x.value ∉ f.keysOf xs) :
    f.bytesOf (xs ++ [x]) =
      f.bytesOf xs + ((f.key x.value).utf8ByteSize + x.value.utf8ByteSize) := by
  rw [bytesOf, bytesOf, keysOf_concat, Finset.sum_insert h, earliest?_concat_of_notMem h, add_comm]
  congr 1
  exact Finset.sum_congr rfl fun k hk => by rw [earliest?_concat_of_mem hk]

/-- Where keys take as many bytes as their values, so do the earliest values. -/
theorem bytesOf_eq (hf : ∀ s, (f.key s).utf8ByteSize = s.utf8ByteSize) (xs : List Item) :
    f.bytesOf xs = 2 * ∑ k ∈ f.keysOf xs, k.utf8ByteSize := by
  rw [bytesOf, Finset.mul_sum]
  refine Finset.sum_congr rfl fun k hk => ?_
  cases he : f.earliest? xs k with
  | none => exact absurd hk (earliest?_eq_none_iff.1 he)
  | some v =>
    have hv : v.utf8ByteSize = k.utf8ByteSize := by rw [← hf v, key_earliest? he]
    rw [Option.getD_some, hv, Nat.two_mul]

/-- The keys of a batch do not depend on its order. -/
theorem keysOf_perm {ys : List Item} (h : (xs.map Item.value).Perm (ys.map Item.value)) :
    f.keysOf xs = f.keysOf ys := by
  have hkeys : ∀ zs : List Item,
      (zs.map fun x => f.key x.value) = (zs.map Item.value).map f.key := fun zs =>
    (List.map_map (g := f.key) (f := Item.value) (l := zs)).symm
  rw [keysOf, keysOf, hkeys, hkeys]
  exact List.toFinset_eq_of_perm _ _ (h.map f.key)

end Normalizer

/-! ### One value -/

namespace World

variable {w : World} {t : TableId} {f : Normalizer} {value : String} {i : InstanceId}

/-- One of several handles is dropped and nobody is told. -/
theorem drop_of_ne_one (h : w.handles i ≠ 1) : w.drop i = w.loseHandle i := by
  simp only [drop, release, if_neg h, reclaim]
  rfl

/-- Where its key is found, a text that is lent is settled, with a handle to spare. -/
theorem settles_of_live? (ht : t < w.tables.size) (h : w.live? t (f.key value) = some i) :
    let r := w.intern t f (.text value)
    r.1.canonical = i ∧ w.Settles t (f.key value) value i r.2 ∧ r.2.handles i ≠ 1 := by
  intro r
  obtain ⟨j, he⟩ := intern_of_live? (a := .text value) h
  have hi := isLive_of_live? h
  have hr : r = (.hit i, ((w.addHandle i).withJournal j).count t .hit) := he
  have hhandles : r.2.handles i = w.handles i + 1 := by
    rw [hr]
    exact (handles_addHandle (lt_size_of_isLive hi) i).trans (by rw [if_pos rfl])
  have hlive : ∀ k, r.2.isLive k = w.isLive k := fun k => by
    rw [hr]
    exact isLive_addHandle hi k
  refine ⟨by rw [hr]; rfl, ⟨?size, (hlive i).trans hi, ?kept, ?found, ?stored⟩, ?spare⟩
  case size =>
    rw [hr]
    exact size_modifyTable t _
  case kept =>
    intro k hk
    refine ⟨(hlive k).trans hk, ?_⟩
    rw [hr]
    exact text_addHandle i k
  case found =>
    intro k hk
    refine ⟨Option.some.inj (h.symm.trans hk), ?_⟩
    rw [hr]
    exact tableAt_modifyTable_self (w := (w.addHandle i).withJournal j) ht _
  case stored =>
    intro hn
    cases h.symm.trans hn
  case spare =>
    have := isLive_iff.1 hi
    omega

/-- Where its key is not found, it is settled, too, with a handle to spare if the table has one. -/
theorem settles_of_none (ht : t < w.tables.size) (h : w.live? t (f.key value) = none) :
    let r := w.intern t f (.text value)
    let x := w.instances.size
    r.1.canonical = x ∧ w.Settles t (f.key value) value x r.2 ∧
      ((w.tableAt t).storage = .retaining → r.2.handles x ≠ 1) := by
  intro r x
  obtain ⟨j, he⟩ := lent_of_none h
  let key := f.key value
  let c : Call := ⟨t, key, .text value⟩
  let u := ((w.create value).2.install t key x).withJournal j
  let o : Outcome := .stored x ((w.entries t).contains key) none
  have hr : r = (o, c.record o u) := he
  have hlt : x < (w.create value).2.instances.size := (size_create value).symm ▸ Nat.lt_succ_self _
  have hself : (w.create value).2.isLive x = true := by
    rw [isLive_create, beq_self_eq_true, Bool.or_true]
  have hlive : ∀ k, r.2.isLive k = (w.create value).2.isLive k := fun k => by
    rw [hr, isLive, handles_congr (c.instances_record o u)]
    exact isLive_install hself k
  have htext : ∀ k, u.text k = (w.create value).2.text k := text_install t key _
  have htext' : ∀ k, r.2.text k = u.text k := fun k => by
    rw [hr, text_congr (c.instances_record o u)]
  have htable : u.tableAt t = { w.tableAt t with entries := (w.entries t).insert key x } :=
    (tableAt_install (w := (w.create value).2) ht key x t).trans (if_pos rfl)
  have hu : t < u.tables.size := by
    show t < ((w.create value).2.install t key _).tables.size
    rw [size_tables_install]
    exact ht
  refine ⟨by rw [hr]; rfl, ⟨?size, (hlive _).trans hself, ?kept, ?found, fun _ => ⟨?text, ?table⟩⟩,
    ?spare⟩
  case size =>
    rw [hr]
    show (c.record o u).tables.size = _
    rw [c.tables_record]
    exact (size_modifyTable t _).trans (size_tables_install t key _)
  case kept =>
    intro k hk
    refine ⟨?_, ?_⟩
    · rw [hlive, isLive_create, hk, Bool.true_or]
    · rw [htext', htext, text_create_of_lt _ (lt_size_of_isLive hk)]
  case found =>
    intro k hk
    cases h.symm.trans hk
  case text => rw [htext', htext, text_create, if_pos rfl]
  case table =>
    rw [hr]
    show (c.record o u).tableAt t = _
    rw [Call.tableAt_record (c := c) hu, if_pos rfl, htable, htext, text_create, if_pos rfl]
  case spare =>
    intro hs
    -- One handle is the caller's and one is the table's.
    have hhandles : r.2.handles x = 2 := by
      rw [hr, handles_congr (c.instances_record o u)]
      show ((w.create value).2.install t key _).handles _ = 2
      rw [handles_install t key hlt, handles_create, if_pos rfl,
        if_pos ⟨(congrArg Table.storage (tableAt_create value t)).trans hs, rfl⟩, handles,
        instanceAt_size]
      rfl
    omega

/-- A text that is lent is settled, with a handle to spare if the table takes one. -/
theorem settles_lent (ht : t < w.tables.size) (f : Normalizer) (value : String) :
    let r := w.intern t f (.text value)
    w.Settles t (f.key value) value r.1.canonical r.2 ∧
      ((w.tableAt t).storage = .retaining → r.2.handles r.1.canonical ≠ 1) := by
  intro r
  cases h : w.live? t (f.key value) with
  | some i =>
    obtain ⟨hi, hs, hspare⟩ := settles_of_live? ht h
    rw [show r.1.canonical = i from hi]
    exact ⟨hs, fun _ => hspare⟩
  | none =>
    obtain ⟨hx, hs, hspare⟩ := settles_of_none ht h
    rw [show r.1.canonical = _ from hx]
    exact ⟨hs, hspare⟩

variable {key : String} {w' w₁ : World}

/-- One of several handles to what was answered may be dropped. -/
theorem Settles.drop (h : w.Settles t key value i w') (h₁ : w'.handles i ≠ 1) :
    w.Settles t key value i (w'.drop i) := by
  have hlive : ∀ j, (w'.loseHandle i).isLive j = w'.isLive j := fun j =>
    isLive_loseHandle_of_ne fun _ => h₁
  rw [drop_of_ne_one h₁]
  refine ⟨h.size, (hlive i).trans h.live, fun j hj => ?_, h.found, fun hn => ?_⟩
  · exact ⟨(hlive j).trans (h.kept j hj).1, (text_loseHandle i j).trans (h.kept j hj).2⟩
  · exact ⟨(text_loseHandle i i).trans (h.stored hn).1, (h.stored hn).2⟩

theorem Settles.storage (h : w.Settles t key value i w') :
    (w'.tableAt t).storage = (w.tableAt t).storage := by
  cases hl : w.live? t key with
  | some j => rw [(h.found j hl).2]
  | none => rw [(h.stored hl).2]

/-- What is settled does not depend on instances that nobody has. -/
theorem Settles.congr (h : w.Settles t key value i w') (ht : w₁.tables = w'.tables)
    (hi : ∀ j < w'.instances.size, w₁.instanceAt j = w'.instanceAt j) :
    w.Settles t key value i w₁ := by
  have hlive : ∀ j, w'.isLive j = true → w₁.isLive j = true ∧ w₁.text j = w'.text j := by
    intro j hj
    have hj' := hi j (lt_size_of_isLive hj)
    refine ⟨?_, congrArg Instance.text hj'⟩
    rw [isLive, handles, hj']
    exact hj
  have htable := tableAt_congr ht t
  refine ⟨(congrArg Array.size ht).trans h.size, (hlive i h.live).1, fun j hj => ?_, ?_, ?_⟩
  · obtain ⟨hl, htext⟩ := h.kept j hj
    exact ⟨(hlive j hl).1, (hlive j hl).2.trans htext⟩
  · rw [htable]
    exact h.found
  · rw [htable, (hlive i h.live).2]
    exact h.stored

end World

namespace Interner

variable {n : Interner} {w w' : World} {t : TableId} {x : Item} {xs : List Item} {i : InstanceId}
  {is : List InstanceId}

/-- Lent or given, held or not, a value is settled. -/
theorem settles_internItem (hn : n.strategy = .table t) (ht : t < w.tables.size)
    (hw : ∀ k i, (w.entries t).get? k = some i → i < w.instances.size)
    (hx : (w.tableAt t).storage = .reclaiming → x.held = true) :
    w.Settles t (n.normalizer.key x.value) x.value (n.internItem x w).1 (n.internItem x w).2 := by
  have htable : ∀ u, n.strategy = .table u → u = t := fun u hu =>
    Strategy.table.inj (hu.symm.trans hn)
  have hgiven : n.LentAsGiven x.value w :=
    n.lentAsGiven (fun u hu => htable u hu ▸ ht) (fun u hu => htable u hu ▸ hw) x.value
  have hlent : w.Settles t (n.normalizer.key x.value) x.value
      (n.intern (.text x.value) w).1 (n.intern (.text x.value) w).2 ∧
        ((w.tableAt t).storage = .retaining →
          (n.intern (.text x.value) w).2.handles (n.intern (.text x.value) w).1 ≠ 1) := by
    rw [intern_of_table hn]
    exact World.settles_lent ht n.normalizer x.value
  let r := if x.given then n.internGiven x.value w else n.intern (.text x.value) w
  have hr : w.Settles t (n.normalizer.key x.value) x.value r.1 r.2 ∧
      ((w.tableAt t).storage = .retaining → r.2.handles r.1 ≠ 1) := by
    by_cases hg : x.given = true
    · have he : r = n.internGiven x.value w := if_pos hg
      rw [he, hgiven.answer, World.handles,
        hgiven.instances _ (World.lt_size_of_isLive hlent.1.live)]
      exact ⟨hlent.1.congr hgiven.tables hgiven.instances, hlent.2⟩
    · have he : r = n.intern (.text x.value) w := if_neg hg
      rw [he]
      exact hlent
  have hitem : n.internItem x w = (r.1, if x.held then r.2 else r.2.drop r.1) := rfl
  rw [hitem]
  by_cases hheld : x.held = true
  · rw [if_pos hheld]
    exact hr.1
  · rw [if_neg hheld]
    refine hr.1.drop (hr.2 ?_)
    cases hs : (w.tableAt t).storage with
    | retaining => rfl
    | reclaiming => exact absurd (hx hs) hheld

theorem internAll_concat (n : Interner) (xs : List Item) (x : Item) (w : World) :
    n.internAll (xs ++ [x]) w =
      ((n.internAll xs w).1 ++ [(n.internItem x (n.internAll xs w).2).1],
        (n.internItem x (n.internAll xs w).2).2) := by
  induction xs generalizing w with
  | nil => rfl
  | cons y ys ih =>
    show ((n.internItem y w).1 :: (n.internAll (ys ++ [x]) (n.internItem y w).2).1,
      (n.internAll (ys ++ [x]) (n.internItem y w).2).2) = _
    rw [ih]
    rfl

namespace Stocked

/-- What is stored under a key is there exactly for the keys of the batch. -/
theorem get?_isSome_iff (h : n.Stocked t xs is w) (key : String) :
    ((w.entries t).get? key).isSome = true ↔ key ∈ n.normalizer.keysOf xs := by
  constructor
  · intro hk
    obtain ⟨i, hi⟩ := Option.isSome_iff_exists.1 hk
    by_contra hn
    cases (h.entry key i hi).2.symm.trans (Normalizer.earliest?_eq_none_iff.2 hn)
  · intro hk
    obtain ⟨y, hy, rfl⟩ := Normalizer.mem_keysOf.1 hk
    have hmem : (w.entries t).get? (n.normalizer.key y.value) ∈ is.map some := by
      rw [h.answers]
      exact List.mem_map_of_mem hy
    obtain ⟨i, -, hi⟩ := List.mem_map.1 hmem
    rw [← hi]
    rfl

theorem live?_eq (h : n.Stocked t xs is w) (key : String) :
    w.live? t key = (w.entries t).get? key := by
  cases hk : (w.entries t).get? key with
  | none => exact World.live?_eq_none_iff.2 fun i hi => by cases hk.symm.trans hi
  | some i => exact World.live?_eq_some_iff.2 ⟨hk, (h.entry key i hk).1⟩

theorem lt_size (h : n.Stocked t xs is w) (key : String) (i : InstanceId)
    (hi : (w.entries t).get? key = some i) : i < w.instances.size :=
  World.lt_size_of_isLive (h.entry key i hi).1

/-- Nothing is stored before the first value. -/
theorem nil (hw : w.Vacant t) : n.Stocked t [] [] w := by
  have hnone : ∀ k, (w.entries t).get? k = none := fun k => by
    rw [hw.entries]
    rfl
  have hsize : w.size t = 0 := by
    rw [World.size, hw.entries]
    rfl
  refine ⟨hw.table, rfl, fun k i hi => ?_, hsize, ?_, ?_, ?_⟩
  · cases (hnone k).symm.trans hi
  all_goals
    rw [hw.counters]
    rfl

/-- A value whose key was there is answered what is there. -/
theorem concat_found (h : n.Stocked t xs is w)
    (hk : n.normalizer.key x.value ∈ n.normalizer.keysOf xs)
    (hs : w.Settles t (n.normalizer.key x.value) x.value i w') :
    n.Stocked t (xs ++ [x]) (is ++ [i]) w' := by
  obtain ⟨j, hj⟩ := Option.isSome_iff_exists.1 ((h.get?_isSome_iff _).2 hk)
  obtain ⟨rfl, htable⟩ := hs.found j ((h.live?_eq _).trans hj)
  have hentries : w'.entries t = w.entries t := by
    rw [World.entries, htable]
    rfl
  have hkeys : n.normalizer.keysOf (xs ++ [x]) = n.normalizer.keysOf xs := by
    rw [Normalizer.keysOf_concat, Finset.insert_eq_of_mem hk]
  have hcard := n.normalizer.card_keysOf_le xs
  constructor
  case table => exact hs.size.symm ▸ h.table
  case answers =>
    rw [List.map_append, List.map_append, h.answers, hentries]
    simp [hj]
  case entry =>
    intro k k' hk'
    rw [hentries] at hk'
    obtain ⟨hl, htext⟩ := h.entry k k' hk'
    refine ⟨(hs.kept k' hl).1, ?_⟩
    rw [(hs.kept k' hl).2, ← htext]
    exact Normalizer.earliest?_concat_of_mem ((h.get?_isSome_iff k).1 (by rw [hk']; rfl)) x
  case size =>
    rw [World.size, hentries, hkeys]
    exact h.size
  case hits =>
    have hlength : (xs ++ [x]).length - (n.normalizer.keysOf xs).card =
        xs.length - (n.normalizer.keysOf xs).card + 1 := by
      rw [List.length_append, List.length_singleton]
      omega
    rw [hkeys, hlength, htable, UInt64.ofNat_add, ← h.hits]
    rfl
  case misses =>
    rw [hkeys, htable]
    exact h.misses
  case bytes =>
    rw [Normalizer.bytesOf_concat_of_mem hk, htable]
    exact h.bytes

/-- A value of a new key is stored there. -/
theorem concat_stored (h : n.Stocked t xs is w)
    (hk : n.normalizer.key x.value ∉ n.normalizer.keysOf xs)
    (hs : w.Settles t (n.normalizer.key x.value) x.value i w') :
    n.Stocked t (xs ++ [x]) (is ++ [i]) w' := by
  have hnone : (w.entries t).get? (n.normalizer.key x.value) = none := by
    rw [← Option.not_isSome_iff_eq_none, h.get?_isSome_iff]
    exact hk
  obtain ⟨htext, htable⟩ := hs.stored ((h.live?_eq _).trans hnone)
  have hentries : w'.entries t = (w.entries t).insert (n.normalizer.key x.value) i := by
    rw [World.entries, htable]
  have hcard : (n.normalizer.keysOf (xs ++ [x])).card = (n.normalizer.keysOf xs).card + 1 := by
    rw [Normalizer.keysOf_concat, Finset.card_insert_of_notMem hk]
  constructor
  case table => exact hs.size.symm ▸ h.table
  case answers =>
    rw [List.map_append, List.map_append, h.answers, hentries]
    congr 1
    · refine List.map_congr_left fun y hy => ?_
      rw [KeyMap.get?_insert, if_neg]
      exact fun hc => hk (Normalizer.mem_keysOf.2 ⟨y, hy, hc⟩)
    · rw [List.map_singleton, List.map_singleton, KeyMap.get?_insert, if_pos rfl]
  case entry =>
    intro k k' hk'
    rw [hentries, KeyMap.get?_insert] at hk'
    split at hk'
    · next heq =>
      obtain rfl := Option.some.inj hk'
      rw [heq, htext]
      exact ⟨hs.live, Normalizer.earliest?_concat_of_notMem hk⟩
    · obtain ⟨hl, he⟩ := h.entry k k' hk'
      refine ⟨(hs.kept k' hl).1, ?_⟩
      rw [(hs.kept k' hl).2, ← he]
      exact Normalizer.earliest?_concat_of_mem ((h.get?_isSome_iff k).1 (by rw [hk']; rfl)) x
  case size =>
    rw [World.size, hentries, KeyMap.size_insert, KeyMap.contains_eq_false_iff.2 hnone, hcard]
    exact congrArg (· + 1) h.size
  case hits =>
    rw [hcard, List.length_append, List.length_singleton, Nat.add_sub_add_right, htable]
    exact h.hits
  case misses =>
    rw [hcard, htable, UInt64.ofNat_add, ← h.misses]
    rfl
  case bytes =>
    rw [Normalizer.bytesOf_concat_of_notMem hk, htable, UInt64.ofNat_add, ← h.bytes]
    rfl

theorem answer (h : n.Stocked t xs is w) {p : ℕ} {x : Item} (hx : xs[p]? = some x) :
    is[p]? = (w.entries t).get? (n.normalizer.key x.value) := by
  have hp := congrArg (·[p]?) h.answers
  simp only [List.getElem?_map, hx, Option.map_some] at hp
  obtain ⟨i, hi, hk⟩ := Option.map_eq_some_iff.1 hp
  exact hi.trans hk

/-- Two values are answered one instance exactly if their keys are equal. -/
theorem answer_eq_iff (h : n.Stocked t xs is w) {p q : ℕ} {x y : Item} (hx : xs[p]? = some x)
    (hy : xs[q]? = some y) :
    is[p]? = is[q]? ↔ n.normalizer.key x.value = n.normalizer.key y.value := by
  rw [h.answer hx, h.answer hy]
  refine ⟨fun heq => ?_, fun heq => by rw [heq]⟩
  have hmem : n.normalizer.key x.value ∈ n.normalizer.keysOf xs :=
    Normalizer.mem_keysOf.2 ⟨x, List.mem_of_getElem? hx, rfl⟩
  -- One instance has one text, and that has the key that the instance is stored under.
  obtain ⟨i, hi⟩ := Option.isSome_iff_exists.1 ((h.get?_isSome_iff _).2 hmem)
  have hkx := Normalizer.key_earliest? (h.entry _ i hi).2
  have hky := Normalizer.key_earliest? (h.entry _ i (heq ▸ hi)).2
  exact hkx.symm.trans hky

/-- What is answered has the earliest text of its key. -/
theorem earliest?_answer (h : n.Stocked t xs is w) {p : ℕ} {x : Item} (hx : xs[p]? = some x)
    (hi : is[p]? = some i) :
    n.normalizer.earliest? xs (n.normalizer.key x.value) = some (w.text i) :=
  (h.entry _ i ((h.answer hx).symm.trans hi)).2

end Stocked

/-- A batch is stocked value by value. -/
theorem stocked_internAll (h : n.Ready t xs w) :
    n.Stocked t xs (n.internAll xs w).1 (n.internAll xs w).2 ∧
      ((n.internAll xs w).2.tableAt t).storage = (w.tableAt t).storage := by
  -- The induction takes the last value off, so that the earlier ones are in the table.
  induction xs using List.reverseRecOn with
  | nil => exact ⟨.nil h.vacant, rfl⟩
  | append_singleton xs x ih =>
    obtain ⟨hs, hstorage⟩ := ih ⟨h.strategy, h.vacant, fun hr y hy =>
      h.held hr y (List.mem_append_left _ hy)⟩
    have hsettles := settles_internItem (x := x) h.strategy hs.table hs.lt_size fun hr =>
      h.held (hstorage ▸ hr) x (List.mem_append_right _ List.mem_cons_self)
    rw [internAll_concat]
    refine ⟨?_, hsettles.storage.trans hstorage⟩
    by_cases hk : n.normalizer.key x.value ∈ n.normalizer.keysOf xs
    · exact hs.concat_found hk hsettles
    · exact hs.concat_stored hk hsettles

theorem batched (h : n.Ready t xs w) : n.Batched t xs w := by
  have hs := (stocked_internAll h).1
  refine ⟨hs.get?_isSome_iff, hs.size, hs.misses, hs.hits, ?_, fun p q x y => hs.answer_eq_iff,
    fun p x i => hs.earliest?_answer, fun kind hkind => ?_⟩
  · have hlength := congrArg List.length hs.answers
    rwa [List.length_map, List.length_map] at hlength
  · rw [hs.bytes, Normalizer.bytesOf_eq]
    intro s
    rw [hkind]
    exact kind.utf8ByteSize_key s

/-- A batch interned in two orders, lent or given, into vacant tables of one mode or of two: what is
answered and stored is the same but for whose text is canonical, and each order says which it is. -/
theorem batch_order_free {n' : Interner} {t' : TableId} {ys : List Item} {w' : World}
    (hf : n'.normalizer = n.normalizer) (hx : n.Ready t xs w) (hy : n'.Ready t' ys w')
    (hp : (xs.map Item.value).Perm (ys.map Item.value)) :
    n.Batched t xs w ∧ n'.Batched t' ys w' ∧
      ((n.internAll xs w).2.tableAt t).Agree ((n'.internAll ys w').2.tableAt t') ∧
      ∀ kind : Normalization, n.normalizer = kind.normalizer →
        ((n.internAll xs w).2.tableAt t).counters.bytes =
          ((n'.internAll ys w').2.tableAt t').counters.bytes := by
  have hbx := batched hx
  have hby := batched hy
  have hkeys : n'.normalizer.keysOf ys = n.normalizer.keysOf xs := by
    rw [hf, Normalizer.keysOf_perm hp]
  have hlength : ys.length = xs.length := by
    have := hp.length_eq
    rw [List.length_map, List.length_map] at this
    exact this.symm
  refine ⟨hbx, hby, ⟨fun k => ?_, ?_, ?_, ?_⟩, fun kind hkind => ?_⟩
  · rw [Bool.eq_iff_iff]
    exact (hbx.keys k).trans (hkeys ▸ (hby.keys k).symm)
  · exact hbx.size.trans (hkeys ▸ hby.size.symm)
  · rw [hbx.hits, hby.hits, hkeys, hlength]
  · rw [hbx.misses, hby.misses, hkeys]
  · rw [hbx.bytes kind hkind, hby.bytes kind (hf.trans hkind), hkeys]

/-- Two texts that differ in case are held by the caller of a reclaiming table, and dropped, the
other one first, by the caller of a retaining table: there is one instance, with another text. -/
theorem batch_order_free_folded :
    let n : Interner := ⟨.table 0, .asciiCaseFold⟩
    let w := (World.newTable .reclaiming 0 true {}).2
    let w' := (World.newTable .retaining 0 false {}).2
    let xs : List Item := [⟨"Ab", false, true⟩, ⟨"aB", true, true⟩]
    let ys : List Item := [⟨"aB", true, false⟩, ⟨"Ab", false, false⟩]
    n.Batched 0 xs w ∧ n.Batched 0 ys w' ∧
      ((n.internAll xs w).2.tableAt 0).Agree ((n.internAll ys w').2.tableAt 0) ∧
      ((n.internAll xs w).2.tableAt 0).counters.bytes =
        ((n.internAll ys w').2.tableAt 0).counters.bytes ∧
      (n.internAll xs w).1[0]? = (n.internAll xs w).1[1]? ∧
      n.normalizer.earliest? xs "ab" = some "Ab" ∧
      n.normalizer.earliest? ys "ab" = some "aB" := by
  intro n w w' xs ys
  have hx : n.Ready 0 xs w := ⟨rfl, ⟨Nat.zero_lt_one, rfl, rfl⟩, fun _ => by simp [xs]⟩
  have hy : n.Ready 0 ys w' := ⟨rfl, ⟨Nat.zero_lt_one, rfl, rfl⟩, nofun⟩
  have hp : (xs.map Item.value).Perm (ys.map Item.value) := (List.reverse_perm _).symm
  obtain ⟨hbx, hby, hagree, hbytes⟩ := batch_order_free rfl hx hy hp
  have hkey : n.normalizer.key "Ab" = "ab" := by decide +kernel
  have hkey' : n.normalizer.key "aB" = "ab" := by decide +kernel
  refine ⟨hbx, hby, hagree, hbytes .asciiCaseFold rfl, ?_, ?_, ?_⟩
  · exact (hbx.identity 0 1 _ _ rfl rfl).2 (hkey.trans hkey'.symm)
  · decide +kernel
  · decide +kernel

end Interner

end Interning
