import Interning.Proofs.Machine.Balance

/-!
# What never changes back

A world only grows: an instance keeps its index, its text and its registration, an instance that is
gone stays gone, a table keeps its storage, and a table without owners never has one again.

    w.Extends w' is a preorder                                  (World.Extends.refl, .trans)
    every step of an accounted machine extends its world        (Accounted.extends_step)
-/

namespace Interning

/-! ## Algorithm -/

/-- What is settled in one world is so in the other. -/
structure World.Extends (w w' : World) : Prop where
  instances : w.instances.size ≤ w'.instances.size
  tables : w.tables.size ≤ w'.tables.size
  text : ∀ i < w.instances.size, w'.text i = w.text i
  registration : ∀ i r, w.registration i = some r → w'.registration i = some r
  /-- An instance that is gone stays gone. -/
  gone : ∀ i < w.instances.size, w.isLive i = false → w'.isLive i = false
  storage : ∀ t < w.tables.size, (w'.tableAt t).storage = (w.tableAt t).storage
  tracked : ∀ t < w.tables.size, (w'.tableAt t).tracked = (w.tableAt t).tracked
  /-- A table that is gone stays gone. -/
  disowned : ∀ t < w.tables.size, w.isOwned t = false → w'.isOwned t = false

/-! ## Lemmas -/

namespace World

variable {w w₁ w₂ : World}

theorem Extends.refl (w : World) : w.Extends w :=
  ⟨Nat.le_refl _, Nat.le_refl _, fun _ _ => rfl, fun _ _ h => h, fun _ _ h => h, fun _ _ => rfl,
    fun _ _ => rfl, fun _ _ h => h⟩

theorem Extends.trans (h : w.Extends w₁) (h' : w₁.Extends w₂) : w.Extends w₂ where
  instances := Nat.le_trans h.instances h'.instances
  tables := Nat.le_trans h.tables h'.tables
  text i hi := (h'.text i (Nat.lt_of_lt_of_le hi h.instances)).trans (h.text i hi)
  registration i r hr := h'.registration i r (h.registration i r hr)
  gone i hi hl := h'.gone i (Nat.lt_of_lt_of_le hi h.instances) (h.gone i hi hl)
  storage t ht := (h'.storage t (Nat.lt_of_lt_of_le ht h.tables)).trans (h.storage t ht)
  tracked t ht := (h'.tracked t (Nat.lt_of_lt_of_le ht h.tables)).trans (h.tracked t ht)
  disowned t ht ho := h'.disowned t (Nat.lt_of_lt_of_le ht h.tables) (h.disowned t ht ho)

theorem Extends.withJournal (h : w.Extends w₁) (j : Array Act) : w.Extends (w₁.withJournal j) := by
  obtain ⟨h₁, h₂, h₃, h₄, h₅, h₆, h₇, h₈⟩ := h
  exact ⟨h₁, h₂, h₃, h₄, h₅, h₆, h₇, h₈⟩

/-- Only instances and tables count. -/
theorem Extends.congr (h : w.Extends w₁) (hi : w₂.instances = w₁.instances)
    (ht : w₂.tables = w₁.tables) : w.Extends w₂ := by
  have hw : w₂ = { w₁ with tracker := w₂.tracker, journal := w₂.journal } := by
    cases w₂; cases w₁; cases hi; cases ht; rfl
  rw [hw]
  obtain ⟨h₁, h₂, h₃, h₄, h₅, h₆, h₇, h₈⟩ := h
  exact ⟨h₁, h₂, h₃, h₄, h₅, h₆, h₇, h₈⟩

theorem extends_addHandle {i : InstanceId} (hi : w.isLive i = true) :
    w.Extends (w.addHandle i) where
  instances := Nat.le_of_eq (size_addHandle i).symm
  tables := Nat.le_refl _
  text j _ := text_addHandle i j
  registration j r h := by rwa [registration_addHandle]
  gone j _ h := by rwa [isLive_addHandle hi]
  storage _ _ := rfl
  tracked _ _ := rfl
  disowned _ _ h := h

theorem extends_loseHandle (i : InstanceId) : w.Extends (w.loseHandle i) where
  instances := Nat.le_of_eq (size_loseHandle i).symm
  tables := Nat.le_refl _
  text j _ := text_loseHandle i j
  registration j r h := by rwa [registration_loseHandle]
  gone j _ h := by
    rw [isLive_eq_false_iff] at h ⊢
    rw [handles_loseHandle, h, Nat.zero_sub]
  storage _ _ := rfl
  tracked _ _ := rfl
  disowned _ _ h := h

theorem extends_register {i : InstanceId} (r : Registration) (hr : w.registration i = none) :
    w.Extends (w.register i r) where
  instances := Nat.le_of_eq (size_register i r).symm
  tables := Nat.le_refl _
  text j _ := text_register i r j
  registration j r' h := by
    have hi : j ≠ i := by
      rintro rfl
      cases hr.symm.trans h
    rw [registration, register, instanceAt_modifyInstance, if_neg fun hc => hi hc.1.symm]
    exact h
  gone j _ h := by rwa [isLive_register]
  storage _ _ := rfl
  tracked _ _ := rfl
  disowned _ _ h := h

theorem extends_create (s : String) : w.Extends (w.create s).2 where
  instances := Nat.le_of_lt (by rw [size_create]; exact Nat.lt_succ_self _)
  tables := Nat.le_refl _
  text _ hi := text_create_of_lt s hi
  registration j r h := by rwa [registration_create]
  gone j hj h := by
    rw [isLive_create, h, Bool.false_or]
    exact beq_false_of_ne (Nat.ne_of_lt hj)
  storage _ _ := rfl
  tracked _ _ := rfl
  disowned _ _ h := h

theorem extends_modifyTable {t : TableId} {f : Table → Table}
    (hs : (f (w.tableAt t)).storage = (w.tableAt t).storage)
    (hk : (f (w.tableAt t)).tracked = (w.tableAt t).tracked)
    (ho : (w.tableAt t).owners = 0 → (f (w.tableAt t)).owners = 0) :
    w.Extends (w.modifyTable t f) where
  instances := Nat.le_refl _
  tables := Nat.le_of_eq (size_modifyTable t f).symm
  text _ _ := rfl
  registration _ _ h := h
  gone _ _ h := h
  storage u _ := by
    rw [tableAt_modifyTable]
    split
    · next h => obtain ⟨rfl, -⟩ := h; exact hs
    · rfl
  tracked u _ := by
    rw [tableAt_modifyTable]
    split
    · next h => obtain ⟨rfl, -⟩ := h; exact hk
    · rfl
  disowned u _ h := by
    rw [← Bool.not_eq_true, isOwned_iff, Nat.not_lt, Nat.le_zero] at h ⊢
    rw [tableAt_modifyTable]
    split
    · next hc => obtain ⟨rfl, -⟩ := hc; exact ho h
    · exact h

theorem extends_newTable (k : Storage) (capacity : UInt64) (tracked : Bool) :
    w.Extends (w.newTable k capacity tracked).2 where
  instances := Nat.le_refl _
  tables := by
    show _ ≤ (w.tables.push _).size
    rw [Array.size_push]
    exact Nat.le_succ _
  text _ _ := rfl
  registration _ _ h := h
  gone _ _ h := h
  storage u hu := by rw [tableAt_newTable, if_neg (Nat.ne_of_lt hu)]
  tracked u hu := by rw [tableAt_newTable, if_neg (Nat.ne_of_lt hu)]
  disowned u hu h := by
    rw [isOwned, tableAt_newTable, if_neg (Nat.ne_of_lt hu)]
    exact h

theorem isLive_install {t : TableId} {key : String} {x : InstanceId} (hx : w.isLive x = true)
    (i : InstanceId) : (w.install t key x).isLive i = w.isLive i := by
  unfold install
  cases (w.tableAt t).storage with
  | retaining => exact isLive_addHandle hx i
  | reclaiming => exact isLive_register x ⟨t, key⟩ i

theorem extends_install {t : TableId} {x : InstanceId} (key : String) (hx : w.isLive x = true)
    (hr : (w.tableAt t).storage = .reclaiming → w.registration x = none) :
    w.Extends (w.install t key x) := by
  unfold install
  refine Extends.trans ?_ (extends_modifyTable rfl rfl fun h => h)
  cases h : (w.tableAt t).storage with
  | retaining => exact extends_addHandle hx
  | reclaiming => exact extends_register _ (hr h)

end World

namespace Call.Provides

variable {w w₁ : World} {c : Call} {x : InstanceId} {rejected : Option InstanceId}

theorem grows (h : c.Provides w x rejected w₁) : w.Extends w₁ := by
  cases h with
  | given => exact .refl w
  | fresh | copy => exact World.extends_create _

/-- What is provided has the text of the argument. -/
theorem text_self (h : c.Provides w x rejected w₁) : w₁.text x = c.argument.value w := by
  cases h with
  | given ha => rw [ha]; rfl
  | fresh ha | copy ha => rw [ha, World.text_create, if_pos rfl]; rfl

theorem isLive_self (hl : ∀ i ∈ c.argument.leftover, w.isLive i = true)
    (h : c.Provides w x rejected w₁) : w₁.isLive x = true := by
  cases h with
  | given ha => exact hl x (by rw [ha]; rfl)
  | fresh | copy =>
    rw [World.isLive_create, beq_self_eq_true, Bool.or_true]

theorem registration_self (h : c.Provides w x rejected w₁)
    (hs : (w.tableAt c.table).storage = .reclaiming) : w₁.registration x = none := by
  cases h with
  | given ha hr => exact hr hs
  | fresh | copy => rw [World.registration_create, World.registration_size]

/-- What is provided changes no registration. -/
theorem registration (h : c.Provides w x rejected w₁) (i : InstanceId) :
    w₁.registration i = w.registration i := by
  cases h with
  | given => rfl
  | fresh | copy => exact World.registration_create _ i

end Call.Provides

/-- A step extends the world, when what it needs in hand is there. -/
theorem Machine.Accounted.extends_effect {m : Machine} {s : Step} (hm : m.Accounted)
    (hs : ∀ x ∈ s.needs, x ∈ m.hand) : m.world.Extends (s.effect m.world).world := by
  cases s with
  | newTable k capacity tracked => exact World.extends_newTable k capacity tracked
  | share t =>
    have ho := World.isOwned_iff.1
      (hm.isOwned (hs (.owner t) List.mem_cons_self) List.mem_cons_self)
    exact World.extends_modifyTable rfl rfl fun h => absurd h (by omega)
  | disown t =>
    have ho : m.world.Extends (m.world.removeOwner t) := by
      refine World.extends_modifyTable rfl rfl fun h => ?_
      show (m.world.tableAt t).owners - 1 = 0
      omega
    rw [Step.effect_disown]
    split
    · exact ho.trans (World.extends_modifyTable rfl rfl fun h => h)
    · exact ho
  | value text => exact World.extends_create text
  | clone i =>
    exact World.extends_addHandle (hm.isLive (hs (.handle i) List.mem_cons_self) List.mem_cons_self)
  | release i =>
    rcases Step.effect_release i m.world with ⟨r, j, -, -, ho, he⟩ | ⟨-, j, he⟩
    · rw [he]
      refine ((World.extends_loseHandle i).trans ?_).withJournal j
      have ho := World.isOwned_iff.1 ho
      refine World.extends_modifyTable rfl rfl fun h => ?_
      exact absurd (show (m.world.tableAt r.table).owners = 0 from h) (by omega)
    · rw [he]
      exact (World.extends_loseHandle i).withJournal j
  | normalize => exact (World.Extends.refl m.world).withJournal _
  | lookup t key =>
    obtain ⟨j, he⟩ := Step.effect_lookup t key m.world
    rw [he]
    refine World.Extends.withJournal ?_ j
    cases h : m.world.live? t key with
    | none => exact .refl m.world
    | some i => exact World.extends_addHandle (World.isLive_of_live? h)
  | begin t f a => exact (World.Extends.refl m.world).withJournal _
  | check c =>
    rcases Step.effect_check c m.world with ⟨-, i, j, hl, he⟩ | ⟨-, j, he⟩
    · rw [he]
      exact (World.extends_addHandle (World.isLive_of_live? hl)).withJournal j
    · rw [he]
      exact (World.Extends.refl m.world).withJournal j
  | enter c =>
    cases hf : m.world.live? c.table c.key with
    | some i =>
      obtain ⟨j, he⟩ := Step.effect_enter_of_some hf
      rw [he]
      exact (World.extends_addHandle (World.isLive_of_live? hf)).withJournal j
    | none =>
      obtain ⟨x, rejected, w₁, j, hp, he⟩ := Step.effect_enter_of_none hf
      have hl : ∀ i ∈ c.argument.leftover, m.world.isLive i = true := fun i hi =>
        hm.isLive (hs (.missed c) List.mem_cons_self) (Option.mem_toList.2 hi)
      rw [he]
      refine (hp.grows.trans ?_).withJournal j
      exact World.extends_install c.key (hp.isLive_self hl) fun h =>
        hp.registration_self (by rwa [← hp.tableAt])
  | record c o =>
    have h : m.world.Extends (m.world.count c.table (c.counted o m.world)) :=
      World.extends_modifyTable rfl rfl fun h => h
    exact h.congr (c.instances_record o m.world) (c.tables_record o m.world)
  | detach r =>
    by_cases h : (m.world.entries r.table).get? r.key = some r.gone
    · obtain ⟨j, he⟩ := Step.effect_detach_of_own h
      rw [he]
      exact World.Extends.withJournal (World.extends_modifyTable rfl rfl fun h => h) j
    · obtain ⟨j, he⟩ := Step.effect_detach_of_other h
      rw [he]
      exact (World.Extends.refl m.world).withJournal j
  | settle r removed =>
    let e := Counters.Entry.reclaim removed (World.entryBytes r.key (m.world.text r.gone))
    have h₁ : m.world.Extends (m.world.count r.table e) :=
      World.extends_modifyTable rfl rfl fun h => h
    have h₂ : (m.world.count r.table e).Extends
        ((m.world.count r.table e).removeOwner r.table) := by
      refine World.extends_modifyTable rfl rfl fun h => ?_
      show ((m.world.count r.table e).tableAt r.table).owners - 1 = 0
      omega
    exact (h₁.trans h₂).congr (r.instances_settle removed m.world) (r.tables_settle removed m.world)

namespace Machine

variable {m m' : Machine} {s : Step}

theorem Accounted.extends_step (hm : m.Accounted) (h : m.step s = some m') :
    m.world.Extends m'.world := by
  obtain ⟨rest, hh, ha, rfl⟩ := exists_of_step h
  exact hm.extends_effect (mem_of_needs hh)

end Machine

end Interning
