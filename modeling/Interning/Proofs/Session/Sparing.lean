import Interning.Proofs.Machine.Isolation
import Interning.Proofs.Session.Ownership
import Mathlib.Algebra.Order.BigOperators.Group.Finset

/-!
# What leaves a table alone

A table has its entries and its counters from the calls on it and from the instances registered
with it that go.  As long as those that have handles keep one, whatever else is done in a session,
on that table or on others, leaves it alone but for its owners.

    dropping handles, when others are left of what is registered there          (Spares.dropAll)
    a call on another table, likewise                                     (Spares.intern_of_ne)
    any operation but a call, likewise                                  (Session.spares_effect)
-/

namespace Interning

/-! ## Algorithm -/

/-- What was done changed nothing about a table but its owners, and no text that was there. -/
structure World.Spares (t : TableId) (w w' : World) : Prop where
  size : w.instances.size ≤ w'.instances.size
  text : ∀ i < w.instances.size, w'.text i = w.text i
  table : ∃ owners, w'.tableAt t = { w.tableAt t with owners := owners }

/-- The instances registered with a table that have handles before have handles after. -/
def World.Keeps (t : TableId) (w w' : World) : Prop :=
  ∀ i key, w.registration i = some ⟨t, key⟩ → 0 < w.handles i → 0 < w'.handles i

/-! ## Lemmas -/

namespace World

variable {w w' w₁ : World} {t u : TableId}

/-! ### Dropping -/

theorem size_drop (i : InstanceId) : (w.drop i).instances.size = w.instances.size := by
  rw [instances_drop, size_loseHandle]

theorem size_dropAll (is : List InstanceId) :
    (w.dropAll is).instances.size = w.instances.size := by
  induction is generalizing w with
  | nil => rfl
  | cons i is ih => rw [dropAll_cons, ih, size_drop]

/-- Dropping handles leaves a table alone when others are left of what is registered there. -/
theorem tableAt_dropAll_of_kept {is : List InstanceId}
    (h : ∀ i ∈ is, ∀ key, w.registration i = some ⟨t, key⟩ → is.count i < w.handles i) :
    (w.dropAll is).tableAt t = w.tableAt t := by
  induction is generalizing w with
  | nil => rfl
  | cons i is ih =>
    rw [dropAll_cons, ih, tableAt_drop, tableAfterDrop]
    · split
      · next r hr =>
        obtain ⟨hlast, hreg, -⟩ := told_eq_some_iff.1 hr
        rw [if_neg]
        rintro rfl
        have hleft := h i List.mem_cons_self r.key hreg
        rw [List.count_cons_self, hlast] at hleft
        omega
      · rfl
    · intro j hj key hreg
      rw [registration_drop] at hreg
      have hleft := h j (List.mem_cons_of_mem i hj) key hreg
      rw [List.count_cons] at hleft
      rw [handles_drop]
      by_cases hij : j = i
      · subst hij
        rw [if_pos rfl]
        simp only [beq_self_eq_true, if_true] at hleft
        omega
      · rw [if_neg hij]
        omega

namespace Spares

theorem refl (w : World) : w.Spares t w :=
  ⟨Nat.le_refl _, fun _ _ => rfl, (w.tableAt t).owners, rfl⟩

theorem trans (h : w.Spares t w₁) (h' : w₁.Spares t w') : w.Spares t w' where
  size := Nat.le_trans h.size h'.size
  text i hi := (h'.text i (Nat.lt_of_lt_of_le hi h.size)).trans (h.text i hi)
  table := by
    obtain ⟨n, hn⟩ := h.table
    obtain ⟨n', hn'⟩ := h'.table
    exact ⟨n', by rw [hn', hn]⟩

/-- The table is the same one. -/
theorem of_tableAt (hs : w.instances.size ≤ w'.instances.size)
    (ht : ∀ i < w.instances.size, w'.text i = w.text i) (h : w'.tableAt t = w.tableAt t) :
    w.Spares t w' := ⟨hs, ht, (w.tableAt t).owners, h⟩

/-- No instance changed. -/
theorem of_instances (hi : w'.instances = w.instances)
    (h : ∃ owners, w'.tableAt t = { w.tableAt t with owners := owners }) : w.Spares t w' :=
  ⟨Nat.le_of_eq (by rw [hi]), fun i _ => text_congr hi i, h⟩

theorem withJournal (h : w.Spares t w') (j : Array Act) : w.Spares t (w'.withJournal j) := by
  obtain ⟨h₁, h₂, h₃⟩ := h
  exact ⟨h₁, h₂, h₃⟩

theorem entries (h : w.Spares t w') : w'.entries t = w.entries t := by
  obtain ⟨n, hn⟩ := h.table
  rw [World.entries, hn]
  rfl

theorem counters (h : w.Spares t w') : (w'.tableAt t).counters = (w.tableAt t).counters := by
  obtain ⟨n, hn⟩ := h.table
  rw [hn]

theorem addHandle (i : InstanceId) : w.Spares t (w.addHandle i) :=
  of_tableAt (Nat.le_of_eq (size_addHandle i).symm) (fun j _ => text_addHandle i j) rfl

theorem addHandle? (found : Option InstanceId) : w.Spares t (w.addHandle? found) := by
  cases found with
  | none => exact refl w
  | some i => exact addHandle i

theorem create (s : String) : w.Spares t (w.create s).2 :=
  of_tableAt (by rw [size_create]; exact Nat.le_succ _) (fun _ hi => text_create_of_lt s hi) rfl

theorem newTable (ht : t < w.tables.size) (k : Storage) (capacity : UInt64) (tracked : Bool) :
    w.Spares t (w.newTable k capacity tracked).2 :=
  of_tableAt (Nat.le_refl _) (fun _ _ => rfl)
    (by rw [tableAt_newTable, if_neg (Nat.ne_of_lt ht)])

theorem dropAll {is : List InstanceId}
    (h : ∀ i ∈ is, ∀ key, w.registration i = some ⟨t, key⟩ → is.count i < w.handles i) :
    w.Spares t (w.dropAll is) :=
  of_tableAt (Nat.le_of_eq (size_dropAll is).symm) (fun i _ => text_dropAll is i)
    (tableAt_dropAll_of_kept h)

theorem drop {i : InstanceId} (hi : 0 < w.handles i) (h : w.Keeps t (w.drop i)) :
    w.Spares t (w.drop i) := by
  have hleft : ∀ j ∈ [i], ∀ key, w.registration j = some ⟨t, key⟩ →
      [i].count j < w.handles j := by
    intro j hj key hreg
    obtain rfl := List.mem_singleton.1 hj
    have hleft := h j key hreg hi
    rw [handles_drop, if_pos rfl] at hleft
    rw [List.count_singleton_self]
    omega
  exact dropAll hleft

/-- An owner of a table is given up. -/
theorem disown (ho : (w.disown u).isOwned t = true) (h : w.Keeps t (w.disown u))
    (hlive : ∀ i ∈ (w.entries u).values, 0 < w.handles i) : w.Spares t (w.disown u) := by
  rw [disown_eq] at ho h ⊢
  have hinstances := instances_abandon u w
  have habandon : w.Spares t (w.abandon u).2 := by
    refine of_instances hinstances ?_
    rw [tableAt_abandon]
    split
    · next htu =>
      -- The table still has an owner, so its entries stayed.
      subst htu
      have howners : ((w.abandon t).2.tableAt t).owners = (w.tableAt t).owners - 1 := by
        rw [tableAt_abandon, if_pos rfl]
        rfl
      rw [isOwned_iff, field_dropAll Table.owners fun _ _ _ _ => rfl, howners] at ho
      exact ⟨_, by rw [Table.abandoned, if_neg (by omega)]⟩
    · exact ⟨_, rfl⟩
  refine habandon.trans (dropAll fun i hi key hreg => ?_)
  rw [registration_congr hinstances] at hreg
  have hi : i ∈ (w.entries u).values := by
    rw [Table.letGo] at hi
    split at hi
    · exact List.mem_reverse.1 hi
    · exact absurd hi List.not_mem_nil
  have hleft := h i key hreg (hlive i hi)
  rw [handles_dropAll] at hleft
  omega

end Spares

/-! ### Calls -/

theorem size_install (t : TableId) (key : String) (i : InstanceId) :
    (w.install t key i).instances.size = w.instances.size := by
  rw [install]
  cases (w.tableAt t).storage with
  | retaining => exact size_addHandle i
  | reclaiming => exact size_register i _

theorem size_finish (c : Call) (o : Outcome) :
    (c.finish o w).instances.size = w.instances.size := by
  cases o with
  | hit i =>
    show ((c.record (.hit i) w).dropAll _).instances.size = _
    rw [size_dropAll, c.instances_record]
  | stored x stale rejected =>
    show (c.record _ (w.dropAll _)).instances.size = _
    rw [c.instances_record, size_dropAll]

/-- A call makes instances, and changes no text that was there. -/
theorem size_intern_le (t : TableId) (f : Normalizer) (a : Argument) :
    w.instances.size ≤ (w.intern t f a).2.instances.size := by
  cases hl : w.live? t (f.key (a.value w)) with
  | some i =>
    obtain ⟨j, he⟩ := intern_of_live? hl
    rw [he, size_finish]
    exact Nat.le_of_eq (size_addHandle i).symm
  | none =>
    obtain ⟨x, rejected, w₁, j, hp, he⟩ := intern_of_none hl
    rw [he, size_finish]
    show _ ≤ (w₁.install t _ x).instances.size
    rw [size_install]
    exact hp.grows.instances

theorem text_intern (t : TableId) (f : Normalizer) (a : Argument) {i : InstanceId}
    (hi : i < w.instances.size) : (w.intern t f a).2.text i = w.text i := by
  cases hl : w.live? t (f.key (a.value w)) with
  | some x =>
    obtain ⟨j, he⟩ := intern_of_live? hl
    rw [he, Call.text_finish]
    exact text_addHandle x i
  | none =>
    obtain ⟨x, rejected, w₁, j, hp, he⟩ := intern_of_none hl
    rw [he, Call.text_finish]
    exact (text_install _ _ x i).trans (hp.grows.text i hi)

/-- A call that finds its key counts a hit, and nothing else about the table changes. -/
theorem tableAt_intern_of_live? {f : Normalizer} {a : Argument} {i : InstanceId}
    (hl : w.live? t (f.key (a.value w)) = some i) (hlive : ∀ i ∈ a.leftover, 0 < w.handles i)
    (h : w.Keeps t (w.intern t f a).2) :
    (w.intern t f a).1 = .hit i ∧ (w.intern t f a).2.tableAt t =
      { w.tableAt t with counters := (w.tableAt t).counters.record .hit } := by
  obtain ⟨j, he⟩ := intern_of_live? hl
  have ht := lt_size_of_entry (live?_eq_some_iff.1 hl).1
  let c := (Call.begin t f a w).1
  let v := (w.addHandle i).withJournal j
  have hcount : (v.count t .hit).tableAt t =
      { w.tableAt t with counters := (w.tableAt t).counters.record .hit } :=
    tableAt_modifyTable_self ht _
  rw [he] at h ⊢
  refine ⟨rfl, ?_⟩
  rw [← hcount]
  refine tableAt_dropAll_of_kept fun x hx key hreg => ?_
  have hreg : w.registration x = some ⟨t, key⟩ := (registration_addHandle i x).symm.trans hreg
  have hleft := h x key hreg (hlive x (Option.mem_toList.1 hx))
  rw [c.handles_finish] at hleft
  exact Nat.lt_of_sub_pos hleft

/-- What a call rejects is the handle given, which is registered as it was before. -/
theorem registration_of_rejected {c : Call} {x i : InstanceId} {w₁ : World} {r : Registration}
    (hp : c.Provides w x (some i) w₁)
    (hreg : (w₁.install c.table c.key x).registration i = some r) :
    c.argument = .handle i ∧ w.registration i = some r := by
  cases hp with
  | copy ha hs hr =>
    obtain ⟨r', hr'⟩ := Option.isSome_iff_exists.1 hr
    have hkept := (Call.Provides.copy ha hs hr).registration_install hr'
    exact ⟨ha, hr'.trans (hkept.symm.trans hreg)⟩

/-- A call that does not find its key stores an instance of its text and counts a miss. -/
theorem tableAt_intern_of_none {f : Normalizer} {a : Argument} (ht : t < w.tables.size)
    (hl : w.live? t (f.key (a.value w)) = none)
    (hget : (w.entries t).get? (f.key (a.value w)) = none)
    (hlive : ∀ i ∈ a.leftover, 0 < w.handles i) (h : w.Keeps t (w.intern t f a).2) :
    ∃ x rejected, (w.intern t f a).1 = .stored x false rejected ∧
      (w.intern t f a).2.text x = a.value w ∧
      (w.intern t f a).2.tableAt t =
        { w.tableAt t with
          entries := (w.entries t).insert (f.key (a.value w)) x
          counters := (w.tableAt t).counters.record
            (.miss false (entryBytes (f.key (a.value w)) (a.value w))) } := by
  obtain ⟨x, rejected, w₁, j, hp, he⟩ := intern_of_none hl
  have hcontains : (w.entries t).contains (f.key (a.value w)) = false :=
    KeyMap.contains_eq_false_iff.2 hget
  rw [hcontains] at he
  let c := (Call.begin t f a w).1
  let v := (w₁.install t c.key x).withJournal j
  have ht₁ : t < w₁.tables.size := by rwa [hp.tables]
  have htext : v.text x = a.value w := (text_install t c.key x x).trans hp.text_self
  have hinstall : v.tableAt t =
      { w.tableAt t with entries := (w.entries t).insert (f.key (a.value w)) x } := by
    show (w₁.install t c.key x).tableAt t = _
    rw [tableAt_install ht₁, if_pos rfl, hp.tableAt, entries, hp.tableAt]
    rfl
  let o : Outcome := .stored x false rejected
  have hdiscard : (c.discard o v).tableAt t = v.tableAt t := by
    refine tableAt_dropAll_of_kept fun i hi key hreg => ?_
    obtain rfl : rejected = some i := Option.mem_toList.1 hi
    obtain ⟨rfl, hgiven⟩ := registration_of_rejected hp hreg
    have hleft := h i key hgiven (hlive i rfl)
    simp only [he, Call.handles_finish] at hleft
    exact Nat.lt_of_sub_pos hleft
  have htext' : (c.discard o v).text x = a.value w := (text_dropAll _ x).trans htext
  have hstored : ((c.discard o v).entries t).get? (f.key (a.value w)) = some x := by
    rw [entries, hdiscard, hinstall]
    exact (KeyMap.get?_insert ..).trans (if_pos rfl)
  have hrecord : (c.record o (c.discard o v)).tableAt t =
      { (c.discard o v).tableAt t with
        counters := ((c.discard o v).tableAt t).counters.record (c.counted o (c.discard o v)) } :=
    (tableAt_congr (c.tables_record _ _) t).trans
      (tableAt_modifyTable_self (lt_size_of_entry hstored) _)
  rw [he]
  refine ⟨x, rejected, rfl, (c.text_finish _ v x).trans htext, hrecord.trans ?_⟩
  rw [hdiscard, hinstall, Call.counted, htext']
  rfl

namespace Spares

/-- A call on another table. -/
theorem intern_of_ne (htu : t ≠ u) {f : Normalizer} {a : Argument}
    (hlive : ∀ i ∈ a.leftover, 0 < w.handles i) (h : w.Keeps t (w.intern u f a).2) :
    w.Spares t (w.intern u f a).2 := by
  refine of_tableAt (size_intern_le u f a) (fun i hi => text_intern u f a hi) ?_
  rcases intern_elsewhere (w := w) (f := f) (a := a) htu with hsame | ⟨i, rfl, hreclaims, -⟩
  · exact hsame
  · obtain ⟨key, hreg, -⟩ := hreclaims.table
    have hleft := h i key hreg (hlive i rfl)
    rw [hreclaims.gone] at hleft
    exact absurd hleft (Nat.lt_irrefl 0)

theorem lookup (u : TableId) (key : String) : w.Spares t (w.lookup u key).2 := by
  obtain ⟨j, he⟩ := w.lookup_eq u key
  rw [he]
  exact (addHandle? _).withJournal j

end Spares

end World

/-! ### Operations -/

namespace Session

variable {σ : Session} {m : Machine} {op : Operation} {t u : TableId} {i : InstanceId}

/-- What the clients have a handle to is there. -/
theorem Shadow.handles_pos (hm : σ.Shadow m) (hi : i ∈ σ.handles) : 0 < σ.world.handles i := by
  have hcount := Multiset.count_pos.2 hi
  rw [hm.counted]
  omega

/-- What a table stores that is there is there as well. -/
theorem Shadow.handles_pos_of_stored (hm : σ.Shadow m) (ho : σ.world.isOwned t = true)
    (hi : i ∈ (σ.world.entries t).values) : 0 < σ.world.handles i := by
  cases hs : (σ.world.tableAt t).storage with
  | reclaiming =>
    obtain ⟨key, hkey⟩ := KeyMap.mem_values_iff.1 hi
    exact ((hm.stored ho hs key i).1 hkey).2
  | retaining =>
    have ht : t ∈ σ.world.retainers := World.mem_retainers.2 ⟨ho, hs⟩
    have hone := List.count_pos_iff.2 hi
    have hsum := Finset.single_le_sum
      (f := fun t => (σ.world.entries t).values.count i) (fun _ _ => Nat.zero_le _) ht
    rw [hm.counted]
    omega

theorem spares_ofMode (ht : t < σ.world.tables.size) (mode : ResolvedMode) (capacity : UInt64)
    (tracked : Bool) : σ.world.Spares t (Strategy.ofMode mode capacity tracked σ.world).2 := by
  cases mode with
  | passthrough => exact .refl σ.world
  | reclaiming => exact .newTable ht .reclaiming capacity tracked
  | retaining => exact .newTable ht .retaining capacity tracked

/-- Whatever is done but a call on a table leaves it alone, as long as it is there and what is
registered with it is kept. -/
theorem spares_effect (hm : σ.Shadow m) (ha : op.Allowed σ) (ht : t < σ.world.tables.size)
    (hop : ∀ f a, op ≠ .intern (.table t) f a) (ho : (op.effect σ).world.isOwned t = true)
    (hk : σ.world.Keeps t (op.effect σ).world) : σ.world.Spares t (op.effect σ).world := by
  cases op with
  | plain mode => exact (spares_ofMode ht mode 0 false).withJournal _
  | configured c caps f =>
    simp only [Operation.effect, Interner.withNormalizer, Strategy.select]
    cases c.resolve caps with
    | error => exact .refl σ.world
    | ok mode => exact (spares_ofMode ht mode c.initialCapacity c.trackMemory).withJournal _
  | bare c caps =>
    simp only [Operation.effect, Strategy.select]
    cases c.resolve caps with
    | error => exact .refl σ.world
    | ok mode => exact spares_ofMode ht mode c.initialCapacity c.trackMemory
  | share s =>
    cases s with
    | passthrough => exact .refl σ.world
    | table u =>
      refine .of_instances rfl ?_
      show ∃ owners, (σ.world.addOwner u).tableAt t = _
      rw [World.addOwner, World.tableAt_modifyTable]
      split
      · exact ⟨_, rfl⟩
      · exact ⟨_, rfl⟩
  | disown s =>
    cases s with
    | passthrough => exact .refl σ.world
    | table u =>
      exact .disown ho hk fun i hi => hm.handles_pos_of_stored (hm.isOwned_iff.2 ha) hi
  | value text => exact .create text
  | clone i => exact .addHandle i
  | drop i => exact .drop (hm.handles_pos ha) hk
  | intern s f a =>
    cases s with
    | passthrough =>
      cases a with
      | handle i => exact .refl σ.world
      | text s => exact .create s
    | table u =>
      have htu : t ≠ u := by
        rintro rfl
        exact hop f a rfl
      exact .intern_of_ne htu (fun i hi => hm.handles_pos (ha.2 i hi)) hk
  | lookup s key =>
    cases s with
    | passthrough => exact .refl σ.world
    | table u => exact .lookup u key
  | find n text =>
    obtain ⟨s, f⟩ := n
    cases s with
    | passthrough => exact .refl σ.world
    | table u =>
      have hnote : σ.world.Spares t (σ.world.note .normalize) := (World.Spares.refl _).withJournal _
      exact hnote.trans (.lookup u (f.key text))
  | ask s q =>
    cases s with
    | passthrough => cases q <;> exact .refl σ.world
    | table u => cases q <;> exact (World.Spares.refl σ.world).withJournal _

end Session

end Interning
