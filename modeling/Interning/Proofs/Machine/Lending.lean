import Interning.Interner
import Interning.Proofs.Machine.Delays
import Interning.Proofs.Machine.Reclamation
import Interning.Proofs.World.Bystanders

/-!
# A text lent is a value given

A caller may lend a text, of which an instance is made only if one is needed, or make a value of the
text and give it up.  In every state that threads can reach, whatever is in progress and whatever
reclamations wait, both come to the same: the value given is stored in place of the instance that
the call would have made, or it is dropped, and then nobody ever knew of it.

    where the key is found, the value given has passed               (World.given_of_live?)
    where it is not, nothing is different at all                      (World.given_of_none)
    both together, for any interner in any state                        (lent_as_given)
-/

namespace Interning

/-! ## Algorithm -/

namespace World

/-- A call that is given a fresh value of a text. -/
def internGiven (t : TableId) (f : Normalizer) (value : String) (w : World) : Outcome × World :=
  let (i, w) := w.create value
  w.intern t f (.handle i)

/-- What a call lent a text and a call given a value of it do in a table. -/
structure LentAsGiven (w : World) (t : TableId) (f : Normalizer) (value : String) : Prop where
  /-- Both find the live instance that is there; the value given passes. -/
  found : ∀ i, w.live? t (f.key value) = some i →
    (w.intern t f (.text value)).1 = .hit i ∧
      w.internGiven t f value = (.hit i, (w.intern t f (.text value)).2.pass value)
  /-- Both store an instance that nobody knew, and it is the same one, with the same text, under the
  same key, in place of the same dead one if there is one; and nothing at all is different. -/
  stored : w.live? t (f.key value) = none →
    w.registration w.instances.size = none ∧
      (w.intern t f (.text value)).1 =
        .stored w.instances.size ((w.entries t).contains (f.key value)) none ∧
      (w.intern t f (.text value)).2.text w.instances.size = value ∧
      ((w.intern t f (.text value)).2.entries t).get? (f.key value) = some w.instances.size ∧
      w.internGiven t f value = w.intern t f (.text value)

end World

namespace Interner

/-- Makes a value of a text, and interns it. -/
def internGiven (n : Interner) (value : String) (w : World) : InstanceId × World :=
  let (i, w) := w.create value
  n.intern (.handle i) w

/-- A text lent and a value of it given have one answer, and leave the same state: the same
tables with their entries and counters, the same tracker, the same log, the same handles. -/
structure LentAsGiven (n : Interner) (value : String) (w : World) : Prop where
  answer : (n.internGiven value w).1 = (n.intern (.text value) w).1
  tables : (n.internGiven value w).2.tables = (n.intern (.text value) w).2.tables
  tracker : (n.internGiven value w).2.tracker = (n.intern (.text value) w).2.tracker
  events : (n.internGiven value w).2.events = (n.intern (.text value) w).2.events
  /-- Each instance has the same text, the same handles and the same registration. -/
  instances : ∀ i < (n.intern (.text value) w).2.instances.size,
    (n.internGiven value w).2.instanceAt i = (n.intern (.text value) w).2.instanceAt i
  /-- One more there may have been: the value given; but it is gone, and nobody knew of it. -/
  passed : ∀ i, (n.intern (.text value) w).2.instances.size ≤ i →
    (n.internGiven value w).2.handles i = 0 ∧ (n.internGiven value w).2.registration i = none
  /-- What there is to say of the outcome in a table. -/
  table : ∀ t, n.strategy = .table t → w.LentAsGiven t n.normalizer value

end Interner

/-! ## Lemmas -/

namespace World

variable {w : World} {t : TableId} {f : Normalizer} {value : String} {i : InstanceId}

/-! ### A value that passes -/

theorem instanceAt_pass (value : String) (i : InstanceId) (w : World) :
    (w.pass value).instanceAt i =
      if i = w.instances.size then ⟨value, 0, none⟩ else w.instanceAt i := by
  simp only [instanceAt, pass, note, Array.getElem?_push]
  split <;> rfl

/-- What is past the last instance has no handle and is registered nowhere. -/
theorem instanceAt_of_size_le (h : w.instances.size ≤ i) : w.instanceAt i = default := by
  rw [instanceAt, Array.getElem?_eq_none h]
  rfl

/-! ### In a table -/

/-- A call that is given a fresh value looks for the key that the text has. -/
theorem internGiven_eq_complete (t : TableId) (f : Normalizer) (value : String) (w : World) :
    w.internGiven t f value = (⟨t, f.key value, .handle w.instances.size⟩ : Call).complete
      ((w.note .normalize).create value).2 := by
  have hvalue : (Argument.handle w.instances.size).value (w.create value).2 = value :=
    (text_create value _).trans (if_pos rfl)
  have hbegin : Call.begin t f (.handle w.instances.size) (w.create value).2 =
      (⟨t, f.key value, .handle w.instances.size⟩, ((w.note .normalize).create value).2) := by
    rw [Call.begin, hvalue]
    rfl
  show (w.create value).2.intern t f (.handle w.instances.size) = _
  rw [intern_eq_complete, hbegin]

/-- Where a call finds its key, the value given has passed. -/
theorem given_of_live? (h : w.live? t (f.key value) = some i) :
    (w.intern t f (.text value)).1 = .hit i ∧
      w.internGiven t f value = (.hit i, (w.intern t f (.text value)).2.pass value) := by
  let u := w.note .normalize
  let v := ((u.note (.lock t)).addHandle i).note (.unlock t)
  have hu : u.live? t (f.key value) = some i := h
  -- What is found does not depend on the argument.
  have hlook : ∀ a, (⟨t, f.key value, a⟩ : Call).look u = (.hit i, v) := fun a =>
    Call.look_of_live? (c := ⟨t, f.key value, a⟩) hu
  have hlent : w.intern t f (.text value) = (.hit i, v.count t .hit) :=
    (intern_eq_complete ..).trans (Call.complete_of_look (hlook _))
  have hgiven : (⟨t, f.key value, .handle w.instances.size⟩ : Call).look (u.create value).2 =
      (.hit i, (v.create value).2) := by
    rw [Call.look_create_of_some hu, hlook]
  have hsize : w.instances.size = (v.count t .hit).instances.size := (size_addHandle i).symm
  refine ⟨by rw [hlent], ?_⟩
  rw [internGiven_eq_complete, Call.complete_of_look hgiven, hlent]
  refine Prod.ext rfl ?_
  show ((v.count t .hit).create value).2.drop w.instances.size = (v.count t .hit).pass value
  rw [hsize, drop_create]

/-- Where it does not, the text lent is stored in a fresh instance. -/
theorem lent_of_none (h : w.live? t (f.key value) = none) :
    ∃ j, w.intern t f (.text value) =
      let o : Outcome := .stored w.instances.size ((w.entries t).contains (f.key value)) none
      (o, (⟨t, f.key value, .text value⟩ : Call).record o
        (((w.create value).2.install t (f.key value) w.instances.size).withJournal j)) := by
  obtain ⟨x, rejected, w₁, j, hp, he⟩ := intern_of_none (w := w) (a := .text value) h
  cases hp with
  | given ha => cases ha
  | fresh ha =>
    obtain rfl := Argument.text.inj ha
    exact ⟨j, he⟩
  | copy ha => cases ha

/-- And the value given is that instance. -/
theorem given_of_none (h : w.live? t (f.key value) = none)
    (hw : ∀ i, (w.entries t).get? (f.key value) = some i → i < w.instances.size) :
    w.internGiven t f value = w.intern t f (.text value) := by
  let u := w.note .normalize
  obtain ⟨j, he⟩ := lent_of_none h
  have hgiven : (⟨t, f.key value, .handle w.instances.size⟩ : Call).look (u.create value).2 =
      (⟨t, f.key value, .text value⟩ : Call).look u :=
    Call.look_create_of_none (w := u) h hw value
  have hlent : w.intern t f (.text value) = (⟨t, f.key value, .text value⟩ : Call).complete u :=
    intern_eq_complete ..
  have houtcome : ((⟨t, f.key value, .text value⟩ : Call).look u).1 =
      .stored w.instances.size ((w.entries t).contains (f.key value)) none :=
    congrArg Prod.fst (hlent.symm.trans he)
  rw [internGiven_eq_complete, hlent]
  simp only [Call.complete]
  rw [hgiven, houtcome]
  rfl

theorem lentAsGiven {t : TableId} (ht : t < w.tables.size)
    (hw : ∀ i, (w.entries t).get? (f.key value) = some i → i < w.instances.size) :
    w.LentAsGiven t f value where
  found _ h := given_of_live? h
  stored h := by
    obtain ⟨j, he⟩ := lent_of_none h
    let u := ((w.create value).2.install t (f.key value) w.instances.size).withJournal j
    let c : Call := ⟨t, f.key value, .text value⟩
    let o : Outcome := .stored w.instances.size ((w.entries t).contains (f.key value)) none
    have htext : (c.finish o u).text w.instances.size = value := by
      rw [c.text_finish]
      show ((w.create value).2.install t _ _).text _ = value
      rw [text_install, text_create, if_pos rfl]
    have hentry : ((c.finish o u).entries t).get? (f.key value) = some w.instances.size := by
      refine c.get?_finish_of_ne o u nofun ?_
      exact (get?_install (w := (w.create value).2) ht ..).2 (.inl ⟨rfl, rfl, rfl⟩)
    exact ⟨registration_size, by rw [he], by rw [he]; exact htext, by rw [he]; exact hentry,
      given_of_none h hw⟩

end World

namespace Interner

variable {w : World} {n : Interner} {value : String}

/-- With a table, an interner is given a value as the table is. -/
theorem internGiven_of_table {t : TableId} (h : n.strategy = .table t) (value : String)
    (w : World) :
    n.internGiven value w = ((w.internGiven t n.normalizer value).1.canonical,
      (w.internGiven t n.normalizer value).2) :=
  intern_of_table h ..

/-- Where the value given passes, it is all that is left of it. -/
theorem LentAsGiven.of_pass {i : InstanceId} {t : TableId} (hs : n.strategy = .table t)
    (hw : w.LentAsGiven t n.normalizer value) (h : w.live? t (n.normalizer.key value) = some i) :
    n.LentAsGiven value w := by
  obtain ⟨hlent, hgiven⟩ := hw.found i h
  let v := (w.intern t n.normalizer (.text value)).2
  have hl : n.intern (.text value) w = (i, v) := by
    rw [intern_of_table hs, hlent]
    rfl
  have hg : n.internGiven value w = (i, v.pass value) := by
    rw [internGiven_of_table hs, hgiven]
    rfl
  refine ⟨by rw [hl, hg], by rw [hl, hg]; rfl, by rw [hl, hg]; rfl, ?_, ?_, ?_, ?_⟩
  · rw [hl, hg, World.events_pass]
  · intro k hk
    rw [hl] at hk ⊢
    rw [hg, World.instanceAt_pass, if_neg (Nat.ne_of_lt hk)]
  · intro k hk
    rw [hl] at hk
    rw [hg, World.handles, World.registration, World.instanceAt_pass]
    split
    · exact ⟨rfl, rfl⟩
    · rw [World.instanceAt_of_size_le hk]
      exact ⟨rfl, rfl⟩
  · rintro u hu
    obtain rfl := Strategy.table.inj (hs.symm.trans hu)
    exact hw

/-- Where nothing is different, nothing is left to say. -/
theorem LentAsGiven.of_eq (h : n.internGiven value w = n.intern (.text value) w)
    (hw : ∀ t, n.strategy = .table t → w.LentAsGiven t n.normalizer value) :
    n.LentAsGiven value w := by
  refine ⟨by rw [h], by rw [h], by rw [h], by rw [h], fun _ _ => by rw [h], ?_, hw⟩
  intro k hk
  rw [h, World.handles, World.registration, World.instanceAt_of_size_le hk]
  exact ⟨rfl, rfl⟩

/-- A text lent to an interner is a value given to it, where what is stored is there. -/
theorem lentAsGiven (ht : ∀ t, n.strategy = .table t → t < w.tables.size)
    (hw : ∀ t, n.strategy = .table t → ∀ k i, (w.entries t).get? k = some i →
      i < w.instances.size) (value : String) : n.LentAsGiven value w := by
  have htable : ∀ t, n.strategy = .table t → w.LentAsGiven t n.normalizer value := fun t hs =>
    World.lentAsGiven (ht t hs) (hw t hs _)
  cases hs : n.strategy with
  | passthrough =>
    have heq : n.internGiven value w = n.intern (.text value) w := by
      simp only [internGiven, intern, hs]
      rfl
    exact .of_eq heq htable
  | table t =>
    cases hl : w.live? t (n.normalizer.key value) with
    | some i => exact .of_pass hs (htable t hs) hl
    | none =>
      have heq : n.internGiven value w = n.intern (.text value) w := by
        rw [internGiven_of_table hs, intern_of_table hs, ((htable t hs).stored hl).2.2.2.2]
      exact .of_eq heq htable

end Interner

namespace Machine

variable {m : Machine} {steps : List Step}

/-- In every state that threads reach, a text lent to an interner is a value given to it. -/
theorem lent_as_given (h : run steps {} = some m) (n : Interner)
    (hn : ∀ t, n.strategy = .table t → .owner t ∈ m.hand) (value : String) :
    n.LentAsGiven value m.world := by
  have hm := sound_of_run h
  refine n.lentAsGiven (fun t ht => ?_) (fun t _ => hm.lt_size_of_entry t) value
  exact World.lt_size_of_isOwned (hm.accounted.isOwned (hn t ht) List.mem_cons_self)

/-- While the reclamation of an instance is owed, its text is lent and a value of it is given: both
take over its entry. -/
theorem lent_as_given_churn :
    ∃ m, run (churn.take 6) {} = some m ∧ m.owed = {⟨0, "a", 0⟩} ∧
      Interner.LentAsGiven ⟨.table 0, .verbatim⟩ "a" m.world ∧
      (m.world.internGiven 0 .verbatim "a").1 = .stored 1 true none := by
  let m := (run (churn.take 6) {}).get (by decide +kernel)
  have h : run (churn.take 6) {} = some m := (Option.some_get _).symm
  refine ⟨m, h, by decide +kernel, lent_as_given h ⟨.table 0, .verbatim⟩ ?_ "a",
    by decide +kernel⟩
  rintro t ⟨⟩
  decide +kernel

end Machine

end Interning
