import Interning.Proofs.Machine.Prompt

/-!
# Locks

Every table has one lock, which is held or free, and which nobody may ask for twice.  What may lead
elsewhere is foreign to a lock: a normalizer is code of the host, an event goes to the host, and the
release of a last handle asks for the lock of the table where the instance is registered.  A step
looks at one table under its lock, or it does one foreign thing, and never both.

    acts that keep the rules one after the other keep them together       (Disciplined.append)
    (s.effect w).journal = w.journal ++ s.acts w                               (journal_effect)
    the acts of a step keep the rules                                         (disciplined_acts)
    a handle is the last one exactly if its release is noted so
                                                      (lastRelease_mem_acts_iff, isLive_effect)
    every run keeps them, and so does every prompt run         (works_run, worksPromptly_run)
-/

namespace Interning

/-! ## Algorithm -/

namespace Act

/-- The locks held after an act, if it can be done: a lock that is held is not given a second time,
and one that is free cannot be given back. -/
def locks? (held : List TableId) : Act → Option (List TableId)
  | lock t => if t ∈ held then none else some (t :: held)
  | unlock t => if t ∈ held then some (held.erase t) else none
  | normalize | lastRelease _ | report _ => some held

/-- The act leads out of the table that it is done for. -/
def isForeign : Act → Bool
  | normalize | lastRelease _ | report _ => true
  | lock _ | unlock _ => false

/-- The locks held after acts, if all of them can be done. -/
def locksAfter? : List TableId → List Act → Option (List TableId)
  | held, [] => some held
  | held, a :: acts => (a.locks? held).bind fun now => locksAfter? now acts

/-- The acts of a reclamation: it looks at its entry under the lock, and reports afterwards. -/
def reclaiming (t : TableId) (e : Event) : List Act := [lock t, unlock t, report e]

/-- Acts that find and leave all locks free, ask for no lock that is held, and do nothing foreign
while a lock is held. -/
structure Disciplined (acts : List Act) : Prop where
  free : locksAfter? [] acts = some []
  foreign : ∀ before a after, acts = before ++ a :: after → a.isForeign = true →
    locksAfter? [] before = some []

end Act

/-- What a step adds to the journal. -/
def Step.acts (w : World) : Step → List Act
  | newTable .reclaiming capacity _ => [.report (.reclaimingTableMade capacity)]
  | newTable .retaining capacity _ => [.report (.retainingTableMade capacity)]
  | share _ | disown _ | value _ | clone _ => []
  | release i => if w.handles i = 1 then [.lastRelease i] else []
  | normalize | begin _ _ _ => [.normalize]
  | lookup t _ => [.lock t, .unlock t]
  | check c =>
    match (w.tableAt c.table).storage with
    | .reclaiming => []
    | .retaining => [.lock c.table, .unlock c.table]
  | enter c => [.lock c.table, .unlock c.table]
  | record c (.stored _ true _) => [.report (.deadEntryReplaced c.key)]
  | record _ _ => []
  | detach r => [.lock r.table, .unlock r.table]
  | settle r removed =>
    [.report (if removed then .entryReclaimed r.key else .reclamationIgnored r.key)]

namespace World

/-- From one world to the other some acts were done that keep the rules of the locks, and that tell
which handles were the last ones. -/
structure Works (acts : List Act) (w w' : World) : Prop where
  grown : w.Extends w'
  journal : w'.journal.toList = w.journal.toList ++ acts
  disciplined : Act.Disciplined acts
  /-- Where a last handle was released, there is none left. -/
  released : ∀ i, .lastRelease i ∈ acts → i < w'.instances.size ∧ w'.isLive i = false
  /-- No last handle goes unnoticed, under a lock or elsewhere. -/
  noticed : ∀ i, w.isLive i = true → w'.isLive i = false → .lastRelease i ∈ acts
  /-- No entry of a retaining table is replaced, so that no handle goes with one. -/
  retained : ∀ t k i, (w.tableAt t).storage = .retaining → w'.isOwned t = true →
    (w.entries t).get? k = some i → (w'.entries t).get? k = some i

/-- The release of a last handle asks for the lock of the table where the instance is registered, if
there is one, and nothing comes in between. -/
structure WorksPromptly (acts : List Act) (w w' : World) : Prop extends w.Works acts w' where
  reclaimed : ∀ before i after, acts = before ++ .lastRelease i :: after → ∀ r,
    w.registration i = some r → w'.isOwned r.table = true →
      ∃ e rest, after = Act.reclaiming r.table e ++ rest

end World

/-! ## Lemmas -/

/-! ### Acts -/

namespace Act

theorem locksAfter?_append (held : List TableId) (xs ys : List Act) :
    locksAfter? held (xs ++ ys) = (locksAfter? held xs).bind fun now => locksAfter? now ys := by
  induction xs generalizing held with
  | nil => rfl
  | cons a xs ih =>
    rw [List.cons_append, locksAfter?, locksAfter?, Option.bind_assoc]
    exact congrArg _ (funext fun now => ih now)

/-- An act among acts done one after the other is one of the first or one of the second. -/
theorem mem_append_cases {xs ys before after : List Act} {a : Act}
    (h : xs ++ ys = before ++ a :: after) :
    (∃ mid, xs = before ++ a :: mid ∧ after = mid ++ ys) ∨
      ∃ mid, ys = mid ++ a :: after ∧ before = xs ++ mid := by
  rcases List.append_eq_append_iff.1 h with ⟨mid, rfl, hmid⟩ | ⟨mid, rfl, hmid⟩
  · exact .inr ⟨mid, hmid, rfl⟩
  · cases mid with
    | nil => exact .inr ⟨[], hmid.symm, by simp⟩
    | cons b mid =>
      obtain ⟨rfl, rfl⟩ := List.cons.inj hmid
      exact .inl ⟨mid, rfl, rfl⟩

namespace Disciplined

variable {acts acts' : List Act}

theorem nil : Disciplined [] :=
  ⟨rfl, fun _ _ _ h => absurd h (by simp)⟩

/-- Acts that keep the rules do so also after others that do. -/
theorem append (h : Disciplined acts) (h' : Disciplined acts') : Disciplined (acts ++ acts') where
  free := by rw [locksAfter?_append, h.free, Option.bind_some, h'.free]
  foreign before a after heq ha := by
    rcases mem_append_cases heq with ⟨mid, hacts, -⟩ | ⟨mid, hacts, rfl⟩
    · exact h.foreign before a mid hacts ha
    · rw [locksAfter?_append, h.free, Option.bind_some]
      exact h'.foreign mid a after hacts ha

/-- A table is looked at under its lock. -/
theorem locked (t : TableId) : Disciplined [lock t, unlock t] where
  free := by simp [locksAfter?, locks?]
  foreign before a after heq ha := by
    have hmem : a ∈ [lock t, unlock t] := heq ▸ by simp
    rcases List.mem_pair.1 hmem with rfl | rfl
    · cases ha
    · cases ha

/-- A foreign act is done by itself. -/
theorem single {a : Act} (ha : a.isForeign = true) : Disciplined [a] where
  free := by cases a <;> first | rfl | cases ha
  foreign before b after heq _ := by
    rcases List.singleton_eq_append_iff.1 heq with ⟨rfl, -⟩ | ⟨-, h⟩
    · rfl
    · cases h

end Disciplined

end Act

/-! ### What a piece adds to the journal -/

section
variable {w : World}

theorem Call.Provides.journal {c : Call} {x : InstanceId} {rejected : Option InstanceId}
    {w₁ : World} (h : c.Provides w x rejected w₁) : w₁.journal = w.journal := by
  cases h <;> rfl

theorem World.journal_install (t : TableId) (key : String) (i : InstanceId) (w : World) :
    (w.install t key i).journal = w.journal := by
  unfold install
  cases (w.tableAt t).storage <;> rfl

theorem Call.journal_store (c : Call) (w : World) : (c.store w).2.journal = w.journal := by
  obtain ⟨x, rejected, w₁, hp, he⟩ := c.store_eq w
  rw [he, World.journal_install, hp.journal]

theorem World.journal_accountGain (t : TableId) (bytes : UInt64) (w : World) :
    (w.accountGain t bytes).journal = w.journal := by
  unfold accountGain
  split <;> rfl

theorem World.journal_accountLoss (t : TableId) (bytes : UInt64) (w : World) :
    (w.accountLoss t bytes).journal = w.journal := by
  unfold accountLoss
  split <;> rfl

theorem World.journal_note (a : Act) (w : World) :
    (w.note a).journal.toList = w.journal.toList ++ [a] := Array.toList_push

/-- What is done under a lock adds the lock taken and the lock given back, if it adds nothing
itself. -/
theorem World.journal_locked {α : Type} (t : TableId) {f : World → α × World}
    (h : ∀ u, (f u).2.journal = u.journal) (w : World) :
    (w.locked t f).2.journal.toList = w.journal.toList ++ [.lock t, .unlock t] := by
  simp only [locked]
  rw [journal_note, h, journal_note, List.append_assoc]
  rfl

end

/-! ### Steps -/

namespace Step

variable {w : World} {s : Step}

/-- What is found is answered with one more handle to it, which the journal does not tell. -/
theorem journal_found {α : Type} (found : Option InstanceId) (u : World) (f : InstanceId → α)
    (a : α) :
    (match found with
      | some i => (f i, u.addHandle i)
      | none => (a, u)).2.journal = u.journal := by
  cases found <;> rfl

theorem journal_effect (s : Step) (w : World) :
    (s.effect w).world.journal.toList = w.journal.toList ++ s.acts w := by
  cases s with
  | newTable k capacity tracked => cases k <;> exact World.journal_note _ w
  | share | value | clone => exact (List.append_nil _).symm
  | disown t =>
    rw [effect_disown]
    split <;> exact (List.append_nil _).symm
  | release i =>
    simp only [effect, World.release, acts]
    split
    · cases w.registration i with
      | none => exact World.journal_note _ w
      | some r => dsimp only; split <;> exact World.journal_note _ w
    · exact (List.append_nil _).symm
  | normalize | begin => exact World.journal_note _ w
  | lookup t key => exact World.journal_locked t (fun u => journal_found _ u _ _) w
  | check c =>
    have h : (c.check w).2.journal.toList = w.journal.toList ++ acts w (.check c) := by
      simp only [Call.check, acts]
      cases (w.tableAt c.table).storage with
      | reclaiming => exact (List.append_nil _).symm
      | retaining => exact World.journal_locked c.table (fun u => journal_found _ u _ _) w
    rw [← h]
    simp only [effect]
    cases c.check w with
    | mk o w' => cases o <;> rfl
  | enter c =>
    show (c.enter w).2.journal.toList = _
    refine World.journal_locked c.table (fun u => ?_) w
    cases u.live? c.table c.key with
    | some i => rfl
    | none => exact c.journal_store u
  | record c o =>
    simp only [effect, Call.record]
    cases o with
    | hit => exact (List.append_nil _).symm
    | stored x stale rejected =>
      cases stale with
      | true =>
        refine (World.journal_note _ _).trans ?_
        rw [World.journal_accountGain]
        rfl
      | false =>
        simp only [Bool.false_eq_true, if_false]
        rw [World.journal_accountGain]
        exact (List.append_nil _).symm
  | detach r =>
    show (r.detach w).2.journal.toList = _
    refine World.journal_locked r.table (fun u => ?_) w
    split <;> rfl
  | settle r removed =>
    show (World.note (.report _) (World.accountLoss _ _ _)).journal.toList = _
    rw [World.journal_note, World.journal_accountLoss]
    rfl

/-- A step does nothing, or looks at one table under its lock, or does one foreign thing. -/
theorem acts_cases (s : Step) (w : World) :
    s.acts w = [] ∨ (∃ t, s.acts w = [.lock t, .unlock t]) ∨
      ∃ a : Act, a.isForeign = true ∧ s.acts w = [a] := by
  cases s with
  | newTable k capacity tracked => cases k <;> exact .inr (.inr ⟨_, rfl, rfl⟩)
  | share | disown | value | clone => exact .inl rfl
  | release i =>
    simp only [acts]
    split
    · exact .inr (.inr ⟨_, rfl, rfl⟩)
    · exact .inl rfl
  | normalize | begin => exact .inr (.inr ⟨_, rfl, rfl⟩)
  | lookup t key => exact .inr (.inl ⟨t, rfl⟩)
  | check c =>
    simp only [acts]
    cases (w.tableAt c.table).storage with
    | reclaiming => exact .inl rfl
    | retaining => exact .inr (.inl ⟨c.table, rfl⟩)
  | enter c => exact .inr (.inl ⟨c.table, rfl⟩)
  | record c o =>
    rcases o with x | ⟨x, _ | _, rejected⟩
    · exact .inl rfl
    · exact .inl rfl
    · exact .inr (.inr ⟨_, rfl, rfl⟩)
  | detach r => exact .inr (.inl ⟨r.table, rfl⟩)
  | settle r removed => exact .inr (.inr ⟨_, rfl, rfl⟩)

theorem disciplined_acts (s : Step) (w : World) : Act.Disciplined (s.acts w) := by
  rcases s.acts_cases w with h | ⟨t, h⟩ | ⟨a, ha, h⟩
  · exact h ▸ .nil
  · exact h ▸ .locked t
  · exact h ▸ .single ha

theorem lastRelease_mem_acts_iff {i : InstanceId} :
    .lastRelease i ∈ s.acts w ↔ s = release i ∧ w.handles i = 1 := by
  cases s with
  | release j =>
    simp only [acts, release.injEq]
    split
    · next h =>
      simp only [List.mem_singleton, Act.lastRelease.injEq]
      exact ⟨fun hi => ⟨hi.symm, hi ▸ h⟩, fun hi => hi.1.symm⟩
    · next h =>
      refine ⟨fun hi => absurd hi List.not_mem_nil, ?_⟩
      rintro ⟨rfl, hi⟩
      exact absurd hi h
  | newTable k => cases k <;> simp [acts]
  | check c => simp only [acts]; cases (w.tableAt c.table).storage <;> simp
  | record c o => rcases o with x | ⟨x, _ | _, rejected⟩ <;> simp [acts]
  | _ => simp [acts]

theorem isLive_release (i j : InstanceId) (w : World) :
    ((release i).effect w).world.isLive j = (w.loseHandle i).isLive j := by
  rcases effect_release i w with ⟨r, k, -, -, -, he⟩ | ⟨-, k, he⟩ <;> rw [he] <;> rfl

end Step

/-- No step but its release takes the last handle from an instance. -/
theorem Machine.Accounted.isLive_effect {m : Machine} {s : Step} (hm : m.Accounted)
    (hs : ∀ x ∈ s.needs, x ∈ m.hand) {i : InstanceId} (hi : m.world.isLive i = true)
    (hr : ¬(s = .release i ∧ m.world.handles i = 1)) :
    (s.effect m.world).world.isLive i = true := by
  have hsame : ∀ w : World, w.instances = m.world.instances → w.isLive i = true := fun w h => by
    rw [World.isLive, World.handles_congr h]
    exact hi
  cases s with
  | newTable | share | normalize | begin => exact hi
  | disown t =>
    rw [Step.effect_disown]
    split <;> exact hi
  | value text =>
    show (m.world.create text).2.isLive i = true
    rw [World.isLive_create, hi, Bool.true_or]
  | clone j =>
    have hj := hm.isLive (hs (.handle j) List.mem_cons_self) List.mem_cons_self
    exact (World.isLive_addHandle hj i).trans hi
  | release j =>
    rw [Step.isLive_release, World.isLive_loseHandle_of_ne]
    · exact hi
    · rintro rfl hj
      exact hr ⟨rfl, hj⟩
  | lookup t key =>
    obtain ⟨j, he⟩ := Step.effect_lookup t key m.world
    rw [he]
    cases h : m.world.live? t key with
    | none => exact hi
    | some x => exact (World.isLive_addHandle (World.isLive_of_live? h) i).trans hi
  | check c =>
    rcases Step.effect_check c m.world with ⟨-, x, j, hl, he⟩ | ⟨-, j, he⟩
    · rw [he]
      exact (World.isLive_addHandle (World.isLive_of_live? hl) i).trans hi
    · rw [he]
      exact hi
  | enter c =>
    cases hf : m.world.live? c.table c.key with
    | some x =>
      obtain ⟨j, he⟩ := Step.effect_enter_of_some hf
      rw [he]
      exact (World.isLive_addHandle (World.isLive_of_live? hf) i).trans hi
    | none =>
      obtain ⟨x, rejected, w₁, j, hp, he⟩ := Step.effect_enter_of_none hf
      have hl : ∀ i ∈ c.argument.leftover, m.world.isLive i = true := fun i hi =>
        hm.isLive (hs (.missed c) List.mem_cons_self) (Option.mem_toList.2 hi)
      have hi₁ : w₁.isLive i = true := by
        cases hp with
        | given => exact hi
        | fresh | copy => rw [World.isLive_create, hi, Bool.true_or]
      rw [he]
      exact (World.isLive_install (hp.isLive_self hl) i).trans hi₁
  | record c o => exact hsame _ (c.instances_record o m.world)
  | detach r => exact hsame _ (Step.instances_detach m.world r)
  | settle r removed => exact hsame _ (r.instances_settle removed m.world)

/-! ### Runs -/

namespace World

variable {w w₁ w₂ : World} {acts acts' : List Act}

namespace Works

theorem refl (w : World) : Works [] w w where
  grown := .refl w
  journal := (List.append_nil _).symm
  disciplined := .nil
  released _ h := absurd h List.not_mem_nil
  noticed _ h h' := by cases h.symm.trans h'
  retained _ _ _ _ _ h := h

/-- A table that is there afterwards was there before. -/
theorem isOwned (h : Works acts w w₁) {t : TableId} (ht : t < w.tables.size)
    (ho : w₁.isOwned t = true) : w.isOwned t = true := by
  by_contra hn
  rw [h.grown.disowned t ht (Bool.eq_false_iff.2 hn)] at ho
  cases ho

theorem trans (h : Works acts w w₁) (h' : Works acts' w₁ w₂) : Works (acts ++ acts') w w₂ where
  grown := h.grown.trans h'.grown
  journal := by rw [h'.journal, h.journal, List.append_assoc]
  disciplined := h.disciplined.append h'.disciplined
  released i hi := by
    rcases List.mem_append.1 hi with hi | hi
    · obtain ⟨hlt, hl⟩ := h.released i hi
      exact ⟨Nat.lt_of_lt_of_le hlt h'.grown.instances, h'.grown.gone i hlt hl⟩
    · exact h'.released i hi
  noticed i hi hl := by
    cases h₁ : w₁.isLive i with
    | false => exact List.mem_append_left _ (h.noticed i hi h₁)
    | true => exact List.mem_append_right _ (h'.noticed i h₁ hl)
  retained t k i hs ho he := by
    have ht := lt_size_of_entry he
    have ht₁ := Nat.lt_of_lt_of_le ht h.grown.tables
    have hs₁ := (h.grown.storage t ht).trans hs
    exact h'.retained t k i hs₁ ho (h.retained t k i hs (h'.isOwned ht₁ ho) he)

end Works

theorem WorksPromptly.trans (hr : ∀ i r, w.registration i = some r → r.table < w.tables.size)
    (h : WorksPromptly acts w w₁) (h' : WorksPromptly acts' w₁ w₂) :
    WorksPromptly (acts ++ acts') w w₂ where
  toWorks := h.toWorks.trans h'.toWorks
  reclaimed before i after heq r hi ho := by
    have ht := Nat.lt_of_lt_of_le (hr i r hi) h.grown.tables
    rcases Act.mem_append_cases heq with ⟨mid, hacts, rfl⟩ | ⟨mid, hacts, -⟩
    · obtain ⟨e, rest, rfl⟩ := h.reclaimed before i mid hacts r hi (h'.isOwned ht ho)
      exact ⟨e, rest ++ acts', List.append_assoc ..⟩
    · exact h'.reclaimed mid i after hacts r (h.grown.registration i r hi) ho

end World

namespace Machine

variable {m m' : Machine} {s : Step} {steps : List Step}

theorem Sound.works (hm : m.Sound) (h : m.step s = some m') :
    World.Works (s.acts m.world) m.world m'.world := by
  have hgrown := hm.accounted.extends_step h
  have hretained := fun t k i hs ho he => hm.entries_retaining (t := t) (k := k) (i := i) h hs ho he
  obtain ⟨rest, hh, -, rfl⟩ := exists_of_step h
  refine ⟨hgrown, s.journal_effect m.world, s.disciplined_acts m.world, fun i hi => ?_,
    fun i hi hl => ?_, hretained⟩
  · obtain ⟨rfl, hone⟩ := Step.lastRelease_mem_acts_iff.1 hi
    have hlt : i < m.world.instances.size := World.lt_size_of_handles_pos (by omega)
    refine ⟨Nat.lt_of_lt_of_le hlt hgrown.instances, ?_⟩
    show ((Step.release i).effect m.world).world.isLive i = false
    rw [Step.isLive_release, World.isLive_loseHandle_of_last hone, bne_self_eq_false,
      Bool.and_false]
  · rw [Step.lastRelease_mem_acts_iff]
    by_contra hn
    rw [Machine.next, hm.accounted.isLive_effect (mem_of_needs hh) hi hn] at hl
    cases hl

/-- All that clients and threads do, in any order of their steps, keeps the rules. -/
theorem Sound.works_run (hm : m.Sound) (h : run steps m = some m') :
    ∃ acts, World.Works acts m.world m'.world := by
  induction steps generalizing m with
  | nil =>
    obtain rfl := Option.some.inj h
    exact ⟨[], .refl m.world⟩
  | cons s rest ih =>
    obtain ⟨m₁, h₁, h⟩ := Option.bind_eq_some_iff.1 h
    obtain ⟨acts, hacts⟩ := ih (hm.step h₁) h
    exact ⟨_, (hm.works h₁).trans hacts⟩

theorem Sound.table_lt (hm : m.Sound) {i : InstanceId} {r : Registration}
    (h : m.world.registration i = some r) : r.table < m.world.tables.size :=
  World.lt_size_of_reclaiming (hm.registered.reclaiming i r h)

/-- A step that owes nothing asks for no other lock. -/
theorem Sound.worksPromptly_of_owes_none (hm : m.Sound) (h : m.step s = some m')
    (ho : s.owes m.world = none) : World.WorksPromptly (s.acts m.world) m.world m'.world where
  toWorks := hm.works h
  reclaimed before i after heq r hr howned := by
    have hmem : .lastRelease i ∈ s.acts m.world := heq ▸ by simp
    obtain ⟨rfl, hone⟩ := Step.lastRelease_mem_acts_iff.1 hmem
    have howned := (hm.works h).isOwned (hm.table_lt hr) howned
    rcases m.world.release_cases i with ⟨r', j, -, -, -, he⟩ | ⟨hn, -⟩
    · rw [Step.owes, he] at ho
      cases ho
    · cases howned.symm.trans (hn hone r hr)

/-- A step that owes a reclamation is followed by it. -/
theorem Sound.worksPromptly_of_owes (hm : m.Sound) {r : Reclamation} {m₁ : Machine}
    (h : m.step s = some m₁) (ho : s.owes m.world = some r) (hr : m₁.reclaim r = some m') :
    ∃ e, World.WorksPromptly (.lastRelease r.gone :: Act.reclaiming r.table e)
      m.world m'.world := by
  obtain ⟨m₂, h₂, hr⟩ := Option.bind_eq_some_iff.1 hr
  obtain ⟨m₃, h₃, hr⟩ := Option.bind_eq_some_iff.1 hr
  obtain rfl := Option.some.inj hr
  have hm₁ := hm.step h
  have hworks := (hm.works h).trans ((hm₁.works h₂).trans ((hm₁.step h₂).works h₃))
  cases s with
  | release i =>
    rcases m.world.release_cases i with ⟨r', j, hone, hreg, -, he⟩ | ⟨-, j, he⟩
    · rw [Step.owes, he] at ho
      obtain rfl := Option.some.inj ho
      have hacts : (Step.release i).acts m.world = [.lastRelease i] := if_pos hone
      rw [hacts] at hworks
      refine ⟨_, hworks, fun before j after heq r hr _ => ?_⟩
      cases before with
      | nil =>
        obtain ⟨ha, rfl⟩ := List.cons.inj heq
        obtain rfl := Act.lastRelease.inj ha
        obtain rfl := Option.some.inj (hr.symm.trans hreg)
        exact ⟨_, [], (List.append_nil _).symm⟩
      | cons a before =>
        have hmem : .lastRelease j ∈ before.append (.lastRelease j :: after) :=
          List.mem_append_right before List.mem_cons_self
        rw [← (List.cons.inj heq).2] at hmem
        simp [Act.reclaiming] at hmem
    · rw [Step.owes, he] at ho
      cases ho
  | _ => cases ho

/-- What is done promptly goes on to the lock of the table that is told. -/
theorem Sound.worksPromptly_run (hm : m.Sound) (h : runPromptly steps m = some m') :
    ∃ acts, World.WorksPromptly acts m.world m'.world := by
  induction steps generalizing m with
  | nil =>
    obtain rfl := Option.some.inj h
    exact ⟨[], .refl m.world, fun _ _ _ h => absurd h (by simp)⟩
  | cons s rest ih =>
    obtain ⟨m₁, h₁, h⟩ := Option.bind_eq_some_iff.1 h
    obtain ⟨l, hl⟩ := run_of_stepPromptly h₁
    obtain ⟨acts', hacts'⟩ := ih (hm.of_run hl) h
    obtain ⟨acts, hacts⟩ : ∃ acts, World.WorksPromptly acts m.world m₁.world := by
      obtain ⟨m₂, h₂, h₁⟩ := Option.bind_eq_some_iff.1 h₁
      cases ho : s.owes m.world with
      | none =>
        rw [ho] at h₁
        obtain rfl := Option.some.inj h₁
        exact ⟨_, hm.worksPromptly_of_owes_none h₂ ho⟩
      | some r =>
        rw [ho] at h₁
        obtain ⟨e, hacts⟩ := hm.worksPromptly_of_owes h₂ ho h₁
        exact ⟨_, hacts⟩
    exact ⟨_, hacts.trans (fun i r => hm.table_lt) hacts'⟩

end Machine

end Interning
