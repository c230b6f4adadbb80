import Interning.Interner
import Interning.Proofs.Machine.Delays
import Interning.Proofs.Machine.Sequential
import Interning.Proofs.World.Bystanders

/-!
# What a look-up says of a call

A look-up makes the key of a value, and finds the instance that a call for the value would find at
the same moment: an entry whose instance is gone is not found, and the call would take it over.  The
look-up itself leaves nothing but one more handle.

    found ↔ a call is a hit, of the same instance              (lookup_eq_some_iff)
    not found ↔ a call stores an instance that is not stored there  (lookup_eq_none_iff)
    the handle dropped, the look-up never was                            (drop_lookup)
    what a call answered is found from then on, by all values of the key   (Answered.finds)
    all of it for every state and every value                          (lookup_foretells)
-/

namespace Interning

/-! ## Algorithm -/

/-- Two worlds are the same but for what was locked and normalized. -/
structure World.Unmarked (w w' : World) : Prop where
  instances : w'.instances = w.instances
  tables : w'.tables = w.tables
  tracker : w'.tracker = w.tracker
  events : w'.events = w.events

namespace Interner

/-- A call stored an instance under the key of its value, and another one was there, or none. -/
def Installs (n : Interner) (t : TableId) (a : Argument) (w : World) : Prop :=
  let key := n.normalizer.key (a.value w)
  ∃ x rejected, (w.intern t n.normalizer a).1 = .stored x ((w.entries t).contains key) rejected ∧
    ((w.intern t n.normalizer a).2.entries t).get? key = some x ∧
    (w.entries t).get? key ≠ some x

/-- What a look-up of a value says of the calls for that value, and what it leaves. -/
structure Foretells (n : Interner) (t : TableId) (value : String) (w : World) : Prop where
  /-- It finds what a call finds. -/
  found : ∀ a : Argument, a.value w = value → ∀ i, (n.lookup value w).1 = some i ↔
    (w.intern t n.normalizer a).1 = .hit i
  /-- It finds nothing where a call stores something new. -/
  missed : ∀ a : Argument, a.value w = value → (∀ i ∈ a.leftover, w.isLive i = true) →
    ((n.lookup value w).1 = none ↔ n.Installs t a w)
  /-- It is the look-up of the key in the table. -/
  key : (n.lookup value w).1 = (w.lookup t (n.normalizer.key value)).1 ∧
    (w.lookup t (n.normalizer.key value)).2.Unmarked (n.lookup value w).2
  /-- It makes one more handle to what it finds, and no other change. -/
  handle : (w.addHandle? (n.lookup value w).1).Unmarked (n.lookup value w).2
  /-- With that handle dropped, nothing has changed at all. -/
  dropped : ∀ i, (n.lookup value w).1 = some i → w.Unmarked ((n.lookup value w).2.drop i)

/-- The values of a key find an instance, as long as the table is owned and, if it is no handle
there, the instance is live. -/
def Finds (n : Interner) (t : TableId) (key : String) (i : InstanceId) (w : World) : Prop :=
  w.isOwned t = true → ((w.tableAt t).storage = .reclaiming → w.isLive i = true) →
    ∀ value, n.normalizer.key value = key → (n.lookup value w).1 = some i

end Interner

namespace Machine

/-- What look-ups say of calls, those to come and those that were answered. -/
structure Foretold (m : Machine) (n : Interner) (t : TableId) : Prop where
  foretells : ∀ value, n.Foretells t value m.world
  /-- What was answered for a key is found under it. -/
  answered : ∀ c o, .interned c o ∈ m.answers → c.table = t →
    n.Finds t c.key o.canonical m.world
  /-- A call that is made now, with what it needs in hand, answers what is found from then on,
  whatever comes after it. -/
  after : ∀ a : Argument, ↑(Step.begin t n.normalizer a).needs ≤ m.hand →
    ∃ call m₁, run call m = some m₁ ∧ m₁.world = (m.world.intern t n.normalizer a).2 ∧
      ∀ more m₂, run more m₁ = some m₂ →
        n.Finds t (n.normalizer.key (a.value m.world)) (n.intern a m.world).1 m₂.world

end Machine

/-! ## Lemmas -/

namespace World

variable {w : World} {t : TableId} {key : String} {i : InstanceId}

/-! ### What a look-up leaves -/

theorem Unmarked.note {a : Act} (h : a.event? = none) (w : World) : w.Unmarked (w.note a) :=
  ⟨rfl, rfl, rfl, events_note h w⟩

theorem Unmarked.trans {w' w₁ : World} (h : w.Unmarked w') (h' : w'.Unmarked w₁) :
    w.Unmarked w₁ :=
  ⟨h'.instances.trans h.instances, h'.tables.trans h.tables, h'.tracker.trans h.tracker,
    h'.events.trans h.events⟩

theorem Unmarked.symm {w' : World} (h : w.Unmarked w') : w'.Unmarked w :=
  ⟨h.instances.symm, h.tables.symm, h.tracker.symm, h.events.symm⟩

theorem addHandle?_note (found : Option InstanceId) (a : Act) (w : World) :
    (w.note a).addHandle? found = (w.addHandle? found).note a := by
  cases found <;> rfl

theorem lookup_fst (t : TableId) (key : String) (w : World) :
    (w.lookup t key).1 = w.live? t key := by
  obtain ⟨j, he⟩ := w.lookup_eq t key
  rw [he]

theorem lookup_snd (t : TableId) (key : String) (w : World) :
    (w.lookup t key).2 =
      (((w.note (.lock t)).addHandle? (w.live? t key))).note (.unlock t) := by
  simp only [lookup, locked, live?_note]
  cases w.live? t key <;> rfl

theorem unmarked_lookup (t : TableId) (key : String) (w : World) :
    (w.addHandle? (w.live? t key)).Unmarked (w.lookup t key).2 := by
  rw [lookup_snd, addHandle?_note]
  exact (Unmarked.note rfl _).trans (.note rfl _)

/-- The handle dropped, the look-up never was. -/
theorem drop_lookup (h : w.live? t key = some i) : w.Unmarked ((w.lookup t key).2.drop i) := by
  have hsnd : (w.lookup t key).2 = ((w.note (.lock t)).note (.unlock t)).addHandle i := by
    rw [lookup_snd, h]
    rfl
  have hlive : ((w.note (.lock t)).note (.unlock t)).isLive i = true := isLive_of_live? h
  rw [hsnd, drop_addHandle hlive]
  exact (Unmarked.note rfl _).trans (.note rfl _)

end World

namespace Interner

variable {n : Interner} {w : World} {t : TableId} {value : String} {a : Argument}

theorem lookup_of_table (hn : n.strategy = .table t) (value : String) (w : World) :
    n.lookup value w = (w.note .normalize).lookup t (n.normalizer.key value) := by
  rw [lookup, hn]

theorem lookup_fst (hn : n.strategy = .table t) (value : String) (w : World) :
    (n.lookup value w).1 = w.live? t (n.normalizer.key value) := by
  rw [lookup_of_table hn]
  exact World.lookup_fst t _ _

/-- An interner's look-up makes a handle to what it finds, and no other change. -/
theorem unmarked_lookup (hn : n.strategy = .table t) (value : String) (w : World) :
    (w.addHandle? (w.live? t (n.normalizer.key value))).Unmarked (n.lookup value w).2 := by
  rw [lookup_of_table hn]
  refine World.Unmarked.trans ?_ (World.unmarked_lookup (w := w.note .normalize) t _)
  rw [World.live?_note, World.addHandle?_note]
  exact .note rfl _

/-! ### What a look-up says -/

/-- A look-up finds an instance when a call is a hit. -/
theorem lookup_eq_some_iff (hn : n.strategy = .table t) (ha : a.value w = value) (i : InstanceId) :
    (n.lookup value w).1 = some i ↔ (w.intern t n.normalizer a).1 = .hit i := by
  subst ha
  rw [lookup_fst hn]
  cases h : w.live? t (n.normalizer.key (a.value w)) with
  | some j =>
    obtain ⟨_, he⟩ := World.intern_of_live? h
    rw [he]
    exact ⟨fun hc => congrArg Outcome.hit (Option.some.inj hc),
      fun hc => congrArg some (Outcome.hit.inj hc)⟩
  | none =>
    obtain ⟨x, rejected, w₁, j, -, he⟩ := World.intern_of_none h
    rw [he]
    exact ⟨nofun, nofun⟩

/-- A call that finds nothing stores something new. -/
theorem installs_of_none (ht : t < w.tables.size)
    (hw : ∀ k i, (w.entries t).get? k = some i → i < w.instances.size)
    (hl : ∀ i ∈ a.leftover, w.isLive i = true)
    (h : w.live? t (n.normalizer.key (a.value w)) = none) : n.Installs t a w := by
  obtain ⟨x, rejected, w₁, j, hp, he⟩ := World.intern_of_none h
  let key := n.normalizer.key (a.value w)
  let c := (Call.begin t n.normalizer a w).1
  -- What is stored is live or new, and what is stored there already is neither.
  have hnew : (w.entries t).get? key ≠ some x ∧ rejected ≠ some x := by
    cases hp with
    | given hi =>
      have hx : w.isLive x = true := hl x (by rw [show a = _ from hi]; rfl)
      refine ⟨fun hc => ?_, nofun⟩
      cases hx.symm.trans (World.live?_eq_none_iff.1 h x hc)
    | fresh => exact ⟨fun hc => absurd (hw key _ hc) (Nat.lt_irrefl _), nofun⟩
    | @copy i hi =>
      have hi : w.isLive i = true := hl i (by rw [show a = _ from hi]; rfl)
      refine ⟨fun hc => absurd (hw key _ hc) (Nat.lt_irrefl _), fun hc => ?_⟩
      obtain rfl := Option.some.inj hc
      exact absurd (World.lt_size_of_isLive hi) (Nat.lt_irrefl _)
  refine ⟨x, rejected, by rw [he], ?_, hnew.1⟩
  rw [he]
  refine c.get?_finish_of_ne _ _ hnew.2 ?_
  exact (World.get?_install (w := w₁) (by rwa [hp.tables]) ..).2 (.inl ⟨rfl, rfl, rfl⟩)

/-- A look-up finds nothing when a call stores something new. -/
theorem lookup_eq_none_iff (hn : n.strategy = .table t) (ht : t < w.tables.size)
    (hw : ∀ k i, (w.entries t).get? k = some i → i < w.instances.size)
    (ha : a.value w = value) (hl : ∀ i ∈ a.leftover, w.isLive i = true) :
    (n.lookup value w).1 = none ↔ n.Installs t a w := by
  constructor
  · intro h
    refine installs_of_none ht hw hl ?_
    rw [ha, ← lookup_fst hn]
    exact h
  · rintro ⟨x, rejected, ho, -⟩
    cases h : (n.lookup value w).1 with
    | none => rfl
    | some i => cases ho.symm.trans ((lookup_eq_some_iff hn ha i).1 h)

theorem foretells (hn : n.strategy = .table t) (ht : t < w.tables.size)
    (hw : ∀ k i, (w.entries t).get? k = some i → i < w.instances.size) (value : String) :
    n.Foretells t value w where
  found _ ha := lookup_eq_some_iff hn ha
  missed _ ha hl := lookup_eq_none_iff hn ht hw ha hl
  key := by
    refine ⟨(lookup_fst hn value w).trans (World.lookup_fst t _ w).symm, ?_⟩
    exact (World.unmarked_lookup ..).symm.trans (unmarked_lookup hn value w)
  handle := by
    rw [lookup_fst hn]
    exact unmarked_lookup hn value w
  dropped i h := by
    rw [lookup_fst hn] at h
    rw [lookup_of_table hn]
    exact (World.Unmarked.note rfl w).trans (World.drop_lookup (w := w.note .normalize) h)

end Interner

namespace Machine

variable {m : Machine} {n : Interner} {t : TableId} {steps : List Step}

/-- Answers are kept. -/
theorem mem_answers_of_run {m' : Machine} {a : Answer} (ha : a ∈ m.answers)
    (h : run steps m = some m') : a ∈ m'.answers :=
  run_induction (P := fun x => a ∈ x.answers)
    (fun _ _ _ _ hx h => answers_step h ▸ List.mem_append_right _ hx) ha h

/-- What was answered for a key is found under it, in any state that threads reach. -/
theorem finds_of_run (h : run steps {} = some m) (hn : n.strategy = .table t) {c : Call}
    {o : Outcome} (ha : .interned c o ∈ m.answers) (ht : c.table = t) :
    n.Finds t c.key o.canonical m.world := by
  intro ho hl value hkey
  have hm := sound_of_run h
  have hhomes : m.world.Homes t c.key o.canonical :=
    ht ▸ (answered_of_run h).homes _ ha o.canonical rfl
  have hlive : m.world.isLive o.canonical = true := by
    cases hs : (m.world.tableAt t).storage with
    | reclaiming => exact hl hs
    | retaining =>
      rw [World.Homes, hs] at hhomes
      exact hm.accounted.isLive_retaining hs (hhomes ho)
  rw [Interner.lookup_fst hn, hkey]
  exact hm.registered.live?_of_homes ho hlive hhomes

/-- In every state that threads reach, a look-up of any value foretells a call for that value, and
what calls answered is found. -/
theorem lookup_foretells (h : run steps {} = some m) (hn : n.strategy = .table t)
    (ht : .owner t ∈ m.hand) : m.Foretold n t where
  foretells value := by
    have hm := sound_of_run h
    have hown := hm.accounted.isOwned ht List.mem_cons_self
    exact Interner.foretells hn (World.lt_size_of_isOwned hown) (hm.lt_size_of_entry t) value
  answered _ _ ha hc := finds_of_run h hn ha hc
  after a hneeds := by
    obtain ⟨l, m₁, hrun, -, hw, -, ha⟩ :=
      intern_promptly (m := m) (tsub_add_cancel_of_le hneeds).symm
    obtain ⟨call, hcall⟩ := run_of_runPromptly hrun
    refine ⟨call, m₁, hcall, hw, fun more m₂ hmore => ?_⟩
    have hlate : run (steps ++ call ++ more) {} = some m₂ := by
      rw [run_append, run_append, h, Option.bind_some, hcall, Option.bind_some, hmore]
    have hmem := mem_answers_of_run (ha ▸ List.mem_append_left _ List.mem_cons_self) hmore
    rw [Interner.intern_of_table hn]
    exact finds_of_run hlate hn hmem rfl

/-- While the entry of an instance that is gone waits for its reclamation, and another one is there:
the first is not found, the second is; and the key of a value is not the value of a key. -/
theorem lookup_foretells_doubled :
    let double : Normalizer := .ofFunction fun s => s ++ s
    let n : Interner := ⟨.table 0, double⟩
    let c : Call := ⟨0, "aa", .text "a"⟩
    let d : Call := ⟨0, "bb", .text "b"⟩
    let steps : List Step := [.newTable .reclaiming 0 false, .begin 0 double (.text "a"), .check c,
      .enter c, .record c (.stored 0 false none), .release 0, .begin 0 double (.text "b"),
      .check d, .enter d, .record d (.stored 1 false none)]
    ∃ m, run steps {} = some m ∧ m.owed = {⟨0, "aa", 0⟩} ∧ m.Foretold n 0 ∧
      (n.lookup "a" m.world).1 = none ∧ n.Installs 0 (.text "a") m.world ∧
      (n.lookup "b" m.world).1 = some 1 ∧ (n.lookup "bb" m.world).1 = none := by
  intro double n c d steps
  let m := (run steps {}).get (by decide +kernel)
  have h : run steps {} = some m := (Option.some_get _).symm
  have hm : m.Foretold n 0 := lookup_foretells h rfl (by decide +kernel)
  have hnone : (n.lookup "a" m.world).1 = none := by decide +kernel
  refine ⟨m, h, by decide +kernel, hm, hnone, ?_, by decide +kernel, by decide +kernel⟩
  exact ((hm.foretells "a").missed (.text "a") rfl nofun).1 hnone

end Machine

end Interning
