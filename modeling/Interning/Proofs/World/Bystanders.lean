import Interning.Proofs.World.Operations

/-!
# What a call does not look at

A call looks at the entries of its table, at what is live there, and at its argument.  A value that
was made before it, and one more handle to something that is live, stay beside it: the call does
what it would do without them, and leaves them as they are.

    a call looks, up to its last lock, and then it is finished          (intern_eq_complete)
    a call given a fresh value finds what a call lent the text finds
                                            (look_create_of_some, look_create_of_none)
    a call is the same with one more handle beside it                          (look_addHandle)
    one more handle, dropped again, was never there                            (drop_addHandle)
    a value that nobody registered is dropped without a trace                     (drop_create)
-/

namespace Interning

/-! ## Algorithm -/

/-- A call up to its last lock: what it found or stored, and the world where it is still to be
counted. -/
def Call.look (c : Call) (w : World) : Outcome × World :=
  match c.check w with
  | (some o, w) => (o, w)
  | (none, w) => c.enter w

/-- A call whose key is known, to its end. -/
def Call.complete (c : Call) (w : World) : Outcome × World :=
  let (o, w) := c.look w
  (o, c.finish o w)

/-- The world after a value was made that no table knows of, and was dropped again. -/
def World.pass (text : String) (w : World) : World :=
  { w with instances := w.instances.push ⟨text, 0, none⟩ }.note (.lastRelease w.instances.size)

/-! ## Lemmas -/

namespace World

variable {w : World} {t : TableId} {i v : InstanceId} {key : String}

/-! ### Changes of instances -/

/-- Of two changes of instances that do not heed each other either may come first. -/
theorem modifyInstance_comm {f g : Instance → Instance} (h : ∀ x, f (g x) = g (f x))
    (i j : InstanceId) (w : World) :
    (w.modifyInstance i f).modifyInstance j g = (w.modifyInstance j g).modifyInstance i f := by
  have hxs : (w.instances.modify i f).modify j g = (w.instances.modify j g).modify i f := by
    refine Array.ext_getElem? fun k => ?_
    simp only [Array.getElem?_modify]
    by_cases hi : i = k <;> by_cases hj : j = k <;> simp [hi, hj, Function.comp_def, h]
  simp only [modifyInstance, hxs]

/-- A change of an instance that another one takes back. -/
theorem modifyInstance_cancel {f g : Instance → Instance} (h : ∀ x, g (f x) = x)
    (i : InstanceId) (w : World) : (w.modifyInstance i f).modifyInstance i g = w := by
  have hxs : (w.instances.modify i f).modify i g = w.instances := by
    refine Array.ext_getElem? fun k => ?_
    simp only [Array.getElem?_modify]
    by_cases hi : i = k <;> simp [hi, Function.comp_def, h]
  simp only [modifyInstance, hxs]

/-- A change of an instance that was there before another one was made. -/
theorem modifyInstance_create {f : Instance → Instance} (hi : i < w.instances.size) (s : String) :
    (w.create s).2.modifyInstance i f = ((w.modifyInstance i f).create s).2 := by
  have hxs : (w.instances.push ⟨s, 1, none⟩).modify i f =
      (w.instances.modify i f).push ⟨s, 1, none⟩ := by
    refine Array.ext_getElem? fun k => ?_
    simp only [Array.getElem?_modify, Array.getElem?_push, Array.size_modify]
    by_cases hk : k = w.instances.size
    · simp [hk, Nat.ne_of_lt hi]
    · simp [hk]
  simp only [modifyInstance, create, hxs]

/-! ### A fresh value -/

/-- What is stored is found, whatever else is made. -/
theorem live?_create (hw : ∀ i, (w.entries t).get? key = some i → i < w.instances.size)
    (s : String) : (w.create s).2.live? t key = w.live? t key := by
  show ((w.entries t).get? key).filter _ = ((w.entries t).get? key).filter _
  cases he : (w.entries t).get? key with
  | none => rfl
  | some i =>
    have hne : i ≠ w.instances.size := Nat.ne_of_lt (hw i he)
    rw [Option.filter_some, Option.filter_some, isLive_create, beq_false_of_ne hne, Bool.or_false]

theorem addHandle_create (hi : i < w.instances.size) (s : String) :
    (w.create s).2.addHandle i = ((w.addHandle i).create s).2 := modifyInstance_create hi s

/-- A value that nobody registered is dropped without a trace but in the journal. -/
theorem drop_create (s : String) : (w.create s).2.drop w.instances.size = w.pass s := by
  have hh : (w.create s).2.handles w.instances.size = 1 := by
    rw [handles, instanceAt_create, if_pos rfl]
  have hr : (w.create s).2.registration w.instances.size = none :=
    (registration_create s _).trans registration_size
  have hm : (w.create s).2.modifyInstance w.instances.size
      (fun x => { x with handles := x.handles - 1 }) =
        { w with instances := w.instances.push ⟨s, 0, none⟩ } := by
    have hxs : (w.instances.push ⟨s, 1, none⟩).modify w.instances.size
        (fun x => { x with handles := x.handles - 1 }) = w.instances.push ⟨s, 0, none⟩ := by
      refine Array.ext_getElem? fun k => ?_
      simp only [Array.getElem?_modify, Array.getElem?_push]
      by_cases hk : k = w.instances.size
      · simp [hk]
      · simp [hk, Ne.symm hk]
    simp only [modifyInstance, create, hxs]
  simp only [drop, release, hh, hr, hm, if_true, reclaim]
  rfl

theorem events_pass (s : String) (w : World) : (w.pass s).events = w.events := by
  simp [events, pass, note, Act.event?]

/-! ### One more handle -/

theorem addHandle_comm (i j : InstanceId) (w : World) :
    (w.addHandle i).addHandle j = (w.addHandle j).addHandle i :=
  modifyInstance_comm (fun _ => rfl) i j w

theorem register_addHandle (i v : InstanceId) (r : Registration) (w : World) :
    (w.addHandle v).register i r = (w.register i r).addHandle v := by
  have hf : ∀ x : Instance, ({ { x with registration := some r } with
      handles := x.handles + 1 } : Instance) =
        { { x with handles := x.handles + 1 } with registration := some r } := fun _ => rfl
  exact modifyInstance_comm hf v i w

theorem live?_addHandle (hv : w.isLive v = true) (t : TableId) (key : String) :
    (w.addHandle v).live? t key = w.live? t key := by
  have hlive : (w.addHandle v).isLive = w.isLive := funext fun j => isLive_addHandle hv j
  show ((w.entries t).get? key).filter _ = ((w.entries t).get? key).filter _
  rw [hlive]

/-- One more handle, dropped again, was never there. -/
theorem drop_addHandle (hv : w.isLive v = true) : (w.addHandle v).drop v = w := by
  have hpos := isLive_iff.1 hv
  have hh : (w.addHandle v).handles v ≠ 1 := by
    rw [handles_addHandle (lt_size_of_isLive hv), if_pos rfl]
    omega
  have hm : (w.addHandle v).modifyInstance v (fun x => { x with handles := x.handles - 1 }) = w :=
    modifyInstance_cancel (fun _ => rfl) v w
  simp only [drop, release, if_neg hh, reclaim, hm]

/-! ### Calls -/

theorem intern_eq_complete (t : TableId) (f : Normalizer) (a : Argument) (w : World) :
    w.intern t f a = (Call.begin t f a w).1.complete (Call.begin t f a w).2 := by
  simp only [intern, Call.complete, Call.look, Call.conclude]
  generalize (Call.begin t f a w).1.check (Call.begin t f a w).2 = r
  obtain ⟨_ | o, w'⟩ := r <;> rfl

end World

namespace Call

variable {w : World} {c : Call} {i v : InstanceId}

/-- The look under the read lock passes over a fresh value. -/
theorem check_create
    (hw : ∀ i, (w.entries c.table).get? c.key = some i → i < w.instances.size) (s : String) :
    c.check (w.create s).2 = ((c.check w).1, ((c.check w).2.create s).2) := by
  have hl : ((w.create s).2.note (.lock c.table)).live? c.table c.key =
      w.live? c.table c.key := World.live?_create hw s
  simp only [check, World.locked, hl, World.live?_note, World.tableAt_create]
  cases (w.tableAt c.table).storage with
  | reclaiming => rfl
  | retaining =>
    cases hf : w.live? c.table c.key with
    | none => rfl
    | some i =>
      have hi : i < (w.note (.lock c.table)).instances.size :=
        World.lt_size_of_isLive (World.isLive_of_live? hf)
      have hadd : ((w.create s).2.note (.lock c.table)).addHandle i =
          (((w.note (.lock c.table)).addHandle i).create s).2 := World.addHandle_create hi s
      simp only [hadd]
      rfl

/-- The last look that finds nothing stores a fresh value, whoever made it. -/
theorem enter_create_of_none {t : TableId} {key : String} (h : w.live? t key = none)
    (hw : ∀ i, (w.entries t).get? key = some i → i < w.instances.size) (s : String) :
    enter ⟨t, key, .handle w.instances.size⟩ (w.create s).2 = enter ⟨t, key, .text s⟩ w := by
  have hl : ((w.create s).2.note (.lock t)).live? t key = none :=
    (World.live?_create hw s).trans h
  have hl' : (w.note (.lock t)).live? t key = none := h
  simp only [enter, World.locked, hl, hl']
  rfl

/-! What is found with one more handle beside it is what is found without it. -/

theorem check_addHandle (c : Call) (hv : w.isLive v = true) :
    c.check (w.addHandle v) = ((c.check w).1, (c.check w).2.addHandle v) := by
  have hl : ((w.addHandle v).note (.lock c.table)).live? c.table c.key =
      w.live? c.table c.key := World.live?_addHandle hv c.table c.key
  have hs : ((w.addHandle v).tableAt c.table).storage = (w.tableAt c.table).storage := rfl
  simp only [check, World.locked, hl, World.live?_note, hs]
  cases (w.tableAt c.table).storage with
  | reclaiming => rfl
  | retaining =>
    cases w.live? c.table c.key with
    | none => rfl
    | some i =>
      have hadd : ((w.addHandle v).note (.lock c.table)).addHandle i =
          ((w.note (.lock c.table)).addHandle i).addHandle v :=
        World.addHandle_comm v i (w.note (.lock c.table))
      simp only [hadd]
      rfl

theorem adopt_addHandle (t : TableId) (key : String) (i : InstanceId) (hv : v < w.instances.size) :
    (w.addHandle v).adopt t key i = ((w.adopt t key i).1, (w.adopt t key i).2.addHandle v) := by
  have hs : ((w.addHandle v).tableAt t).storage = (w.tableAt t).storage := rfl
  simp only [World.adopt, hs, World.registration_addHandle, World.text_addHandle]
  cases (w.tableAt t).storage with
  | retaining => simp only [World.addHandle_comm v i w]
  | reclaiming =>
    cases w.registration i with
    | none => simp only [World.register_addHandle]
    | some r =>
      have hfst : ((w.addHandle v).create (w.text i)).1 = (w.create (w.text i)).1 :=
        World.size_addHandle v
      have hsnd : ((w.addHandle v).create (w.text i)).2 =
          (w.create (w.text i)).2.addHandle v := (World.addHandle_create hv _).symm
      simp only [hfst, hsnd, World.register_addHandle]

theorem store_addHandle (c : Call) (hv : v < w.instances.size) :
    c.store (w.addHandle v) = ((c.store w).1, (c.store w).2.addHandle v) := by
  have hown : c.argument.own (w.addHandle v) =
      ((c.argument.own w).1, (c.argument.own w).2.addHandle v) := by
    cases c.argument with
    | handle i => rfl
    | text s =>
      exact Prod.ext (World.size_addHandle v) (World.addHandle_create hv s).symm
  have hlt : v < (c.argument.own w).2.instances.size := by
    cases c.argument with
    | handle i => exact hv
    | text s => exact (World.size_create s).symm ▸ Nat.lt_succ_of_lt hv
  have hentries : (w.addHandle v).entries c.table = w.entries c.table := rfl
  simp only [store, hown, hentries, adopt_addHandle c.table c.key _ hlt]
  rfl

theorem enter_addHandle (c : Call) (hv : w.isLive v = true) :
    c.enter (w.addHandle v) = ((c.enter w).1, (c.enter w).2.addHandle v) := by
  have hl : ((w.addHandle v).note (.lock c.table)).live? c.table c.key =
      w.live? c.table c.key := World.live?_addHandle hv c.table c.key
  have hlt : v < (w.note (.lock c.table)).instances.size := World.lt_size_of_isLive hv
  have hnote : (w.addHandle v).note (.lock c.table) = (w.note (.lock c.table)).addHandle v := rfl
  simp only [enter, World.locked, hl, World.live?_note]
  cases w.live? c.table c.key with
  | none =>
    simp only [hnote, c.store_addHandle hlt]
    rfl
  | some i =>
    simp only [hnote, World.addHandle_comm v i]
    rfl

/-- A call looks as it does without one more handle to something live. -/
theorem look_addHandle (c : Call) (hv : w.isLive v = true) :
    c.look (w.addHandle v) = ((c.look w).1, (c.look w).2.addHandle v) := by
  have hlive : (c.check w).2.isLive v = true := by
    rcases c.check_eq w with ⟨-, i, j, hi, he⟩ | ⟨-, j, he⟩
    · rw [he]
      exact (World.isLive_addHandle (World.isLive_of_live? hi) v).trans hv
    · rw [he]
      exact hv
  rw [look, look, c.check_addHandle hv]
  cases hc : c.check w with
  | mk checked w' =>
    rw [hc] at hlive
    cases checked with
    | none => exact c.enter_addHandle hlive
    | some o => rfl

theorem record_addHandle (c : Call) (o : Outcome) (v : InstanceId) (w : World) :
    c.record o (w.addHandle v) = (c.record o w).addHandle v := by
  cases o with
  | hit i => rfl
  | stored i stale rejected =>
    have hgain : ∀ (bytes : UInt64) (u : World), (u.addHandle v).accountGain c.table bytes =
        (u.accountGain c.table bytes).addHandle v := by
      intro bytes u
      have ht : ((u.addHandle v).tableAt c.table).tracked = (u.tableAt c.table).tracked := rfl
      rw [World.accountGain, World.accountGain, ht]
      split <;> rfl
    have hcount : ∀ e, (w.addHandle v).count c.table e = (w.count c.table e).addHandle v :=
      fun _ => rfl
    simp only [record, World.text_addHandle, hcount, hgain]
    cases stale <;> rfl

/-! What a call given a fresh value finds is what a call finds that is lent the text. -/

theorem complete_of_look {o : Outcome} {w' : World} (h : c.look w = (o, w')) :
    c.complete w = (o, c.finish o w') := by rw [complete, h]

theorem look_of_live? (h : w.live? c.table c.key = some i) :
    c.look w = (.hit i, ((w.note (.lock c.table)).addHandle i).note (.unlock c.table)) := by
  cases hs : (w.tableAt c.table).storage with
  | retaining => simp [look, check, World.locked, hs, h]
  | reclaiming =>
    have hcheck : c.check w = (none, w) := by simp [check, hs]
    rw [look, hcheck]
    exact enter_of_live? h

theorem look_of_none (h : w.live? c.table c.key = none) :
    ∃ x rejected w₁ j, c.Provides w x rejected w₁ ∧
      c.look w = (.stored x ((w.entries c.table).contains c.key) rejected,
        (w₁.install c.table c.key x).withJournal j) := by
  rcases c.check_eq w with ⟨-, i, j, hi, -⟩ | ⟨-, j, he⟩
  · cases h.symm.trans hi
  · have h' : (w.withJournal j).live? c.table c.key = none := h
    obtain ⟨x, rejected, w₁, j', hp, he'⟩ := enter_of_none h'
    obtain ⟨w₂, hq, rfl⟩ := hp.of_withJournal
    refine ⟨x, rejected, w₂, j', hq, ?_⟩
    rw [look, he]
    refine he'.trans ?_
    rw [World.install_withJournal]
    rfl

theorem look_create_of_some (h : w.live? c.table c.key = some i) (s : String) :
    c.look (w.create s).2 = (.hit i, ((c.look w).2.create s).2) := by
  have hw : ∀ j, (w.entries c.table).get? c.key = some j → j < w.instances.size := by
    intro j hj
    obtain rfl := Option.some.inj (hj.symm.trans (World.live?_eq_some_iff.1 h).1)
    exact World.lt_size_of_isLive (World.isLive_of_live? h)
  have hi : i < (w.note (.lock c.table)).instances.size :=
    World.lt_size_of_isLive (World.isLive_of_live? h)
  have hadd : ((w.create s).2.note (.lock c.table)).addHandle i =
      (((w.note (.lock c.table)).addHandle i).create s).2 := World.addHandle_create hi s
  rw [look_of_live? h, look_of_live? ((World.live?_create hw s).trans h), hadd]
  rfl

theorem look_create_of_none {t : TableId} {key : String} (h : w.live? t key = none)
    (hw : ∀ i, (w.entries t).get? key = some i → i < w.instances.size) (s : String) :
    look ⟨t, key, .handle w.instances.size⟩ (w.create s).2 = look ⟨t, key, .text s⟩ w := by
  have hcheck := check_create (c := ⟨t, key, .handle w.instances.size⟩) hw s
  have hsame : check ⟨t, key, .handle w.instances.size⟩ w = check ⟨t, key, .text s⟩ w := rfl
  rw [look, look, hcheck, hsame]
  rcases check_eq ⟨t, key, .text s⟩ w with ⟨-, i, j, hi, -⟩ | ⟨-, j, he⟩
  · cases h.symm.trans hi
  · rw [he]
    exact enter_create_of_none (w := w.withJournal j) h hw s

end Call

end Interning
