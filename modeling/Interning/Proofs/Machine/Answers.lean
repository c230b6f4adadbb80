import Interning.Proofs.Machine.Registry

/-!
# Answers hold for good

An answer is settled under the lock of a table: it is the live instance stored under the key, or the
one that the call stores there.  What it says holds from then on: a reclaiming table has the
instance registered under the key, and a retaining table has it stored there as long as it is owned.

    an answer is the live instance under the key, or a new one there          (Step.answer_cases)
    the entries of a retaining table stay as long as it is owned      (Sound.entries_retaining)
    answered instances of one key that are both live are the same             (Answered.agree)
    every run from the empty machine ends with such answers                   (answered_of_run)
-/

namespace Interning

/-! ## Algorithm -/

/-- An instance belongs under a key of a table. -/
def World.Homes (w : World) (t : TableId) (key : String) (i : InstanceId) : Prop :=
  match (w.tableAt t).storage with
  | .reclaiming => w.registration i = some ⟨t, key⟩
  | .retaining => w.isOwned t = true → (w.entries t).get? key = some i

/-- What was answered once holds still. -/
structure Machine.Answered (m : Machine) : Prop where
  table : ∀ a ∈ m.answers, a.table < m.world.tables.size
  instance? : ∀ a ∈ m.answers, ∀ i ∈ a.instance?, i < m.world.instances.size
  homes : ∀ a ∈ m.answers, ∀ i ∈ a.instance?, m.world.Homes a.table a.key i
  /-- A retaining table answers one instance for one key, as long as it is there and after it. -/
  retained : ∀ a ∈ m.answers, ∀ b ∈ m.answers, a.table = b.table → a.key = b.key →
    (m.world.tableAt a.table).storage = .retaining → ∀ i ∈ a.instance?, ∀ j ∈ b.instance?, i = j

/-! ## Lemmas -/

/-! ### What a step answers -/

namespace Step

variable {s : Step} {w : World} {a : Answer}

theorem answer_cases (h : (s.effect w).answer = some a) :
    (a.instance? = w.live? a.table a.key ∧
      ∀ c o, a = .interned c o → o = .hit o.canonical) ∨
    ∃ c x rejected w₁ j, s = .enter c ∧ w.live? c.table c.key = none ∧
      c.Provides w x rejected w₁ ∧
      a = .interned c (.stored x ((w.entries c.table).contains c.key) rejected) ∧
      (s.effect w).world = (w₁.install c.table c.key x).withJournal j := by
  cases s with
  | lookup t key =>
    obtain ⟨j, he⟩ := effect_lookup t key w
    rw [he] at h
    obtain rfl := Option.some.inj h
    exact .inl ⟨rfl, by simp⟩
  | check c =>
    rcases effect_check c w with ⟨-, i, j, hl, he⟩ | ⟨-, j, he⟩
    · rw [he] at h
      obtain rfl := Option.some.inj h
      refine .inl ⟨hl.symm, fun c' o h => ?_⟩
      obtain ⟨-, rfl⟩ := Answer.interned.inj h
      rfl
    · rw [he] at h
      cases h
  | enter c =>
    cases hf : w.live? c.table c.key with
    | some i =>
      obtain ⟨j, he⟩ := effect_enter_of_some hf
      rw [he] at h
      obtain rfl := Option.some.inj h
      refine .inl ⟨hf.symm, fun c' o h => ?_⟩
      obtain ⟨-, rfl⟩ := Answer.interned.inj h
      rfl
    | none =>
      obtain ⟨x, rejected, w₁, j, hp, he⟩ := effect_enter_of_none hf
      rw [he] at h
      obtain rfl := Option.some.inj h
      exact .inr ⟨c, x, rejected, w₁, j, rfl, hf, hp, rfl, by rw [he]; rfl⟩
  | newTable | share | disown | value | clone | release | normalize | begin | record | detach
  | settle => cases h

/-- Who is answered has an owner of the table in hand, or a call on it. -/
theorem asked (h : (s.effect w).answer = some a) :
    .owner a.table ∈ s.needs ∨ ∃ x ∈ s.needs, x.call?.map Call.table = some a.table := by
  cases s with
  | lookup t key =>
    obtain ⟨j, he⟩ := effect_lookup t key w
    rw [he] at h
    obtain rfl := Option.some.inj h
    exact .inl List.mem_cons_self
  | check c =>
    refine .inr ⟨_, List.mem_cons_self, ?_⟩
    rcases effect_check c w with ⟨-, i, j, -, he⟩ | ⟨-, j, he⟩
    · rw [he] at h
      obtain rfl := Option.some.inj h
      rfl
    · rw [he] at h
      cases h
  | enter c =>
    refine .inr ⟨_, List.mem_cons_self, ?_⟩
    obtain rfl := Option.some.inj h
    rfl
  | newTable | share | disown | value | clone | release | normalize | begin | record | detach
  | settle => cases h

/-- Who is answered gets a handle to the instance. -/
theorem holds_answer (h : (s.effect w).answer = some a) :
    ∀ i ∈ a.instance?, ∃ x ∈ (s.effect w).gains, i ∈ x.handles := by
  intro i hi
  cases s with
  | lookup t key =>
    obtain ⟨j, he⟩ := effect_lookup t key w
    rw [he] at h ⊢
    obtain rfl := Option.some.inj h
    refine ⟨.handle i, List.mem_cons_of_mem _ ?_, List.mem_singleton.2 rfl⟩
    exact List.mem_map.2 ⟨i, Option.mem_toList.2 hi, rfl⟩
  | check c =>
    rcases effect_check c w with ⟨-, k, j, -, he⟩ | ⟨-, j, he⟩
    · rw [he] at h ⊢
      obtain rfl := Option.some.inj h
      exact ⟨_, List.mem_cons_self, List.mem_singleton.2 (Option.some.inj hi).symm⟩
    · rw [he] at h
      cases h
  | enter c =>
    obtain rfl := Option.some.inj h
    exact ⟨_, List.mem_cons_self, List.mem_singleton.2 (Option.some.inj hi).symm⟩
  | newTable | share | disown | value | clone | release | normalize | begin | record | detach
  | settle => cases h

/-- The steps that may change the entries of a table. -/
theorem entries_effect {t : TableId} (hdisown : s ≠ .disown t)
    (henter : ∀ c, s = .enter c → c.table = t → w.live? t c.key ≠ none)
    (hdetach : ∀ r, s = .detach r → r.table ≠ t) :
    (s.effect w).world.entries t = w.entries t := by
  have hcount : ∀ u e, (w.count u e).entries t = w.entries t := fun u e =>
    World.field_modifyTable Table.entries (fun _ => by rfl) u t
  cases s with
  | newTable k capacity tracked => exact World.field_newTable Table.entries rfl capacity t
  | share u => exact World.field_modifyTable Table.entries (fun _ => by rfl) u t
  | disown u =>
    have hu : t ≠ u := fun hc => hdisown (hc ▸ rfl)
    rw [effect_disown]
    split
    · rw [World.entries, World.modifyEntries, World.tableAt_modifyTable_of_ne hu]
      exact World.entries_removeOwner u t
    · exact World.entries_removeOwner u t
  | release i =>
    rcases effect_release i w with ⟨r, j, -, -, -, he⟩ | ⟨-, j, he⟩
    · rw [he]
      exact World.field_modifyTable Table.entries (fun _ => by rfl) r.table t
    · rw [he]
      rfl
  | lookup u key =>
    obtain ⟨j, he⟩ := effect_lookup u key w
    rw [he]
    cases w.live? u key <;> rfl
  | check c =>
    rcases effect_check c w with ⟨-, i, j, -, he⟩ | ⟨-, j, he⟩ <;> rw [he] <;> rfl
  | enter c =>
    cases hf : w.live? c.table c.key with
    | some i =>
      obtain ⟨j, he⟩ := effect_enter_of_some hf
      rw [he]
      rfl
    | none =>
      have hc : t ≠ c.table := by
        rintro rfl
        exact henter c rfl rfl hf
      obtain ⟨x, rejected, w₁, j, hp, he⟩ := effect_enter_of_none hf
      rw [he]
      show ((w₁.install c.table c.key x).tableAt t).entries = _
      rw [World.tableAt_install_of_ne hc, hp.tableAt]
      rfl
  | record c o =>
    unfold World.entries World.tableAt
    show (((c.record o w).tables[t]?).getD default).entries = _
    rw [c.tables_record]
    exact hcount _ _
  | detach r =>
    by_cases h : (w.entries r.table).get? r.key = some r.gone
    · obtain ⟨j, he⟩ := effect_detach_of_own h
      rw [he]
      show ((w.modifyEntries r.table fun m => m.erase r.key).tableAt t).entries = _
      rw [World.modifyEntries, World.tableAt_modifyTable_of_ne (hdetach r rfl).symm]
      rfl
    · obtain ⟨j, he⟩ := effect_detach_of_other h
      rw [he]
      rfl
  | settle r removed =>
    unfold World.entries World.tableAt
    show (((r.settle removed w).tables[t]?).getD default).entries = _
    rw [r.tables_settle]
    exact (World.entries_removeOwner _ _).trans (hcount _ _)
  | value | clone | normalize | begin => rfl

/-- An entry was there before, or it is the one that a call stored. -/
theorem entry_origin {t : TableId} {k : String} {i : InstanceId}
    (h : ((s.effect w).world.entries t).get? k = some i) :
    (w.entries t).get? k = some i ∨
    ∃ c rejected w₁ j, s = .enter c ∧ c.table = t ∧ c.key = k ∧ w.live? t k = none ∧
      c.Provides w i rejected w₁ ∧
      (s.effect w).world = (w₁.install c.table c.key i).withJournal j := by
  by_cases hd : s = .disown t
  · subst hd
    refine .inl ?_
    rw [effect_disown] at h
    split at h
    · rw [World.entries, World.modifyEntries, World.tableAt_modifyTable] at h
      split at h
      · cases h
      · rwa [World.entries_removeOwner] at h
    · rwa [World.entries, World.entries_removeOwner] at h
  by_cases hr : ∃ r, s = .detach r ∧ r.table = t
  · obtain ⟨r, rfl, rfl⟩ := hr
    exact .inl ((get?_detach w r r.table k i).1 h).1
  by_cases hc : ∃ c, s = .enter c ∧ c.table = t ∧ w.live? t c.key = none
  · obtain ⟨c, rfl, rfl, hf⟩ := hc
    obtain ⟨x, rejected, w₁, j, hp, he⟩ := effect_enter_of_none hf
    have hw : ((enter c).effect w).world = (w₁.install c.table c.key x).withJournal j := by
      rw [he]
      rfl
    rw [hw] at h
    have ht := World.lt_size_of_entry h
    rw [World.withJournal, World.size_tables_install] at ht
    rcases (World.get?_install ht c.key x c.table k i).1 h with ⟨-, rfl, rfl⟩ | ⟨-, h⟩
    · exact .inr ⟨c, rejected, w₁, j, rfl, rfl, rfl, hf, hp, hw⟩
    · rw [World.entries, hp.tableAt] at h
      exact .inl h
  · rw [entries_effect hd (fun c h₁ h₂ h₃ => hc ⟨c, h₁, h₂, h₃⟩) fun r h₁ h₂ => hr ⟨r, h₁, h₂⟩] at h
    exact .inl h

end Step

/-! ### What a table has -/

namespace Machine

variable {m m' : Machine} {s : Step} {a : Answer} {t : TableId} {k : String} {i : InstanceId}

/-- The entries of a retaining table stay as long as it is owned. -/
theorem Sound.entries_retaining (hm : m.Sound) (h : m.step s = some m')
    (hs : (m.world.tableAt t).storage = .retaining) (ho : m'.world.isOwned t = true)
    (he : (m.world.entries t).get? k = some i) : (m'.world.entries t).get? k = some i := by
  have ht := World.lt_size_of_entry he
  have hh := hm
  obtain ⟨rest, hhand, -, rfl⟩ := exists_of_step h
  have heq : ∀ e, (m.next s rest).world.entries t = e → e.get? k = some i →
      ((m.next s rest).world.entries t).get? k = some i := by
    rintro e rfl he
    exact he
  by_cases hd : s = .disown t
  · subst hd
    refine heq (m.world.entries t) ?_ he
    have hw : (m.next (.disown t) rest).world = ((Step.disown t).effect m.world).world := rfl
    rw [hw, Step.effect_disown] at ho ⊢
    split
    · next hc =>
      rw [if_pos hc, World.isOwned_iff] at ho
      rw [World.owners_modifyEntries, World.owners_removeOwner, if_pos rfl] at ho
      omega
    · exact World.entries_removeOwner t t
  by_cases hr : ∃ r, s = .detach r ∧ r.table = t
  · obtain ⟨r, rfl, rfl⟩ := hr
    have hmem := mem_of_needs hhand (.owed r) List.mem_cons_self
    rw [hm.registered.reclaiming_of_owed hmem] at hs
    cases hs
  by_cases hc : ∃ c, s = .enter c ∧ c.table = t ∧ m.world.live? t c.key = none
  · obtain ⟨c, rfl, rfl, hf⟩ := hc
    obtain ⟨x, rejected, w₁, j, hp, heff⟩ := Step.effect_enter_of_none hf
    have hw : (m.next (.enter c) rest).world = (w₁.install c.table c.key x).withJournal j := by
      show ((Step.enter c).effect m.world).world = _
      rw [heff]
      rfl
    rw [hw]
    refine (World.get?_install (by rwa [hp.tables]) c.key x c.table k i).2 (.inr ⟨?_, ?_⟩)
    · rintro ⟨-, rfl⟩
      rw [hm.accounted.get?_retaining hs hf] at he
      cases he
    · rw [World.entries, hp.tableAt]
      exact he
  · refine heq _ (Step.entries_effect hd ?_ ?_) he
    · exact fun c h₁ h₂ h₃ => hc ⟨c, h₁, h₂, h₃⟩
    · exact fun r h₁ h₂ => hr ⟨r, h₁, h₂⟩

/-- Where an instance belongs, it belongs for good. -/
theorem Sound.homes_step (hm : m.Sound) (h : m.step s = some m') (ht : t < m.world.tables.size)
    (hh : m.world.Homes t k i) : m'.world.Homes t k i := by
  have hx := hm.accounted.extends_step h
  unfold World.Homes at hh ⊢
  rw [hx.storage t ht]
  cases hs : (m.world.tableAt t).storage with
  | reclaiming =>
    rw [hs] at hh
    exact hx.registration i _ hh
  | retaining =>
    rw [hs] at hh
    intro ho
    refine hm.entries_retaining h hs ho (hh ?_)
    by_contra hn
    rw [hx.disowned t ht (Bool.eq_false_iff.2 hn)] at ho
    cases ho

/-- What is found belongs under its key. -/
theorem Registered.homes_of_live? (hm : m.Registered) (h : m.world.live? t k = some i) :
    m.world.Homes t k i := by
  have he := (World.live?_eq_some_iff.1 h).1
  unfold World.Homes
  cases hs : (m.world.tableAt t).storage with
  | reclaiming => exact hm.entry t k i hs he
  | retaining => exact fun _ => he

/-- As long as its table is there, an instance that belongs under a key and is live is found. -/
theorem Registered.live?_of_homes (hm : m.Registered) (ho : m.world.isOwned t = true)
    (hl : m.world.isLive i = true) (h : m.world.Homes t k i) : m.world.live? t k = some i := by
  refine World.live?_eq_some_iff.2 ⟨?_, hl⟩
  unfold World.Homes at h
  cases hs : (m.world.tableAt t).storage with
  | reclaiming =>
    rw [hs] at h
    exact hm.stored i t k h hl
  | retaining =>
    rw [hs] at h
    exact h ho

/-! ### What is answered -/

theorem Sound.owned_of_answer (hm : m.Sound) (h : m.step s = some m')
    (ha : (s.effect m.world).answer = some a) : m.world.isOwned a.table = true := by
  obtain ⟨rest, hh, -, rfl⟩ := exists_of_step h
  rcases Step.asked ha with ho | ⟨x, hx, hc⟩
  · exact hm.accounted.isOwned (mem_of_needs hh _ ho) List.mem_cons_self
  · obtain ⟨c, hxc, hct⟩ := Option.map_eq_some_iff.1 hc
    rw [← hct]
    exact hm.accounted.isOwned_call (mem_of_needs hh _ hx) hxc

theorem Sound.isLive_of_answer (hm : m.Sound) (h : m.step s = some m')
    (ha : (s.effect m.world).answer = some a) (hi : i ∈ a.instance?) :
    m'.world.isLive i = true := by
  obtain ⟨x, hx, hxi⟩ := Step.holds_answer ha i hi
  have hm' := hm.step h
  obtain ⟨rest, -, -, rfl⟩ := exists_of_step h
  refine hm'.accounted.isLive (Multiset.mem_add.2 (.inr (Multiset.mem_coe.2 hx))) hxi

theorem Sound.homes_of_answer (hm : m.Sound) (h : m.step s = some m')
    (ha : (s.effect m.world).answer = some a) (hi : i ∈ a.instance?) :
    m'.world.Homes a.table a.key i := by
  have ht := World.lt_size_of_isOwned (hm.owned_of_answer h ha)
  rcases Step.answer_cases ha with ⟨hl, -⟩ | ⟨c, x, rejected, w₁, j, rfl, hf, hp, rfl, hw⟩
  · exact hm.homes_step h ht (hm.registered.homes_of_live? (hl.symm.trans hi))
  · obtain rfl : x = i := Option.some.inj hi
    obtain ⟨rest, hhand, -, rfl⟩ := exists_of_step h
    have hl : ∀ i ∈ c.argument.leftover, m.world.isLive i = true := fun i hi =>
      hm.accounted.isLive (mem_of_needs hhand (.missed c) List.mem_cons_self)
        (Option.mem_toList.2 hi)
    have ht₁ : c.table < w₁.tables.size := by
      rw [hp.tables]
      exact ht
    have hw' : (m.next (.enter c) rest).world = (w₁.install c.table c.key x).withJournal j := hw
    rw [hw', World.Homes, World.tableAt_withJournal]
    show match ((w₁.install c.table c.key x).tableAt c.table).storage with
      | .reclaiming => _
      | .retaining => _
    rw [World.storage_install]
    cases hs : (w₁.tableAt c.table).storage with
    | reclaiming =>
      have h := World.registration_install c.key hs (lt_size_provides hl hp) x
      rw [if_pos rfl] at h
      exact h
    | retaining =>
      exact fun _ => (World.get?_install ht₁ c.key x c.table c.key x).2 (.inl ⟨rfl, rfl, rfl⟩)

namespace Answered

theorem step (hm : m.Sound) (h : m.step s = some m') (ha : m.Answered) : m'.Answered := by
  have hx := hm.accounted.extends_step h
  have hans := answers_step h
  have hmem : ∀ a ∈ m'.answers, (s.effect m.world).answer = some a ∨ a ∈ m.answers := by
    intro a hmem
    rw [hans, List.mem_append, Option.mem_toList] at hmem
    exact hmem
  -- A new answer of a retaining table is the instance that it answered for the key before.
  have hnew : ∀ a, (s.effect m.world).answer = some a → ∀ b ∈ m.answers, a.table = b.table →
      a.key = b.key → (m.world.tableAt a.table).storage = .retaining →
      ∀ i ∈ a.instance?, ∀ j ∈ b.instance?, i = j := by
    intro a hs b hb ht hk hr i hi j hj
    have ho := hm.owned_of_answer h hs
    have hh := ha.homes b hb j hj
    rw [← ht, ← hk, World.Homes, hr] at hh
    have he := hh ho
    have hlj := hm.accounted.isLive_retaining hr he
    rcases Step.answer_cases hs with ⟨hl, -⟩ | ⟨c, x, rejected, w₁, k, rfl, hf, -, rfl, -⟩
    · have hl := (World.live?_eq_some_iff.1 (hl.symm.trans hi)).1
      exact Option.some.inj (hl.symm.trans he)
    · have hd := World.live?_eq_none_iff.1 hf j he
      rw [hlj] at hd
      cases hd
  refine ⟨?_, ?_, ?_, ?_⟩
  · intro a hmem'
    rcases hmem a hmem' with hs | hold
    · exact Nat.lt_of_lt_of_le (World.lt_size_of_isOwned (hm.owned_of_answer h hs)) hx.tables
    · exact Nat.lt_of_lt_of_le (ha.table a hold) hx.tables
  · intro a hmem' i hi
    rcases hmem a hmem' with hs | hold
    · exact World.lt_size_of_isLive (hm.isLive_of_answer h hs hi)
    · exact Nat.lt_of_lt_of_le (ha.instance? a hold i hi) hx.instances
  · intro a hmem' i hi
    rcases hmem a hmem' with hs | hold
    · exact hm.homes_of_answer h hs hi
    · exact hm.homes_step h (ha.table a hold) (ha.homes a hold i hi)
  · intro a hmem₁ b hmem₂ ht hk hr i hi j hj
    have hta : a.table < m.world.tables.size := by
      rcases hmem a hmem₁ with hs | hold
      · exact World.lt_size_of_isOwned (hm.owned_of_answer h hs)
      · exact ha.table a hold
    rw [hx.storage a.table hta] at hr
    rcases hmem a hmem₁ with hs₁ | hold₁ <;> rcases hmem b hmem₂ with hs₂ | hold₂
    · obtain rfl := Option.some.inj (hs₁.symm.trans hs₂)
      exact Option.some.inj (hi.symm.trans hj)
    · exact hnew a hs₁ b hold₂ ht hk hr i hi j hj
    · rw [ht] at hr
      exact (hnew b hs₂ a hold₁ ht.symm hk.symm hr j hj i hi).symm
    · exact ha.retained a hold₁ b hold₂ ht hk hr i hi j hj

/-- Answered instances of one key of a table that are both live are the same. -/
theorem agree (hm : m.Sound) (ha : m.Answered) {a b : Answer} (h₁ : a ∈ m.answers)
    (h₂ : b ∈ m.answers) (ht : a.table = b.table) (hk : a.key = b.key) {i j : InstanceId}
    (hi : i ∈ a.instance?) (hj : j ∈ b.instance?) (hli : m.world.isLive i = true)
    (hlj : m.world.isLive j = true) : i = j := by
  cases hs : (m.world.tableAt a.table).storage with
  | retaining => exact ha.retained a h₁ b h₂ ht hk hs i hi j hj
  | reclaiming =>
    have hhi := ha.homes a h₁ i hi
    have hhj := ha.homes b h₂ j hj
    rw [World.Homes, hs] at hhi
    rw [← ht, ← hk, World.Homes, hs] at hhj
    have hei := hm.registered.stored i _ _ hhi hli
    exact Option.some.inj (hei.symm.trans (hm.registered.stored j _ _ hhj hlj))

end Answered

theorem answered_empty : Answered {} :=
  ⟨nofun, nofun, nofun, nofun⟩

/-- Every run from the empty machine ends with answers that hold still. -/
theorem answered_of_run {steps : List Step} (h : run steps {} = some m) : m.Answered := by
  have hp : m.Sound ∧ m.Answered :=
    run_induction (P := fun x => x.Sound ∧ x.Answered)
      (fun _ _ _ _ hx h => ⟨hx.1.step h, Answered.step hx.1 h hx.2⟩) ⟨sound_empty, answered_empty⟩ h
  exact hp.2

end Machine

end Interning
