import Interning.Proofs.Machine.Counting

/-!
# A retaining table decides once

A call on a retaining table looks twice, under the read lock and under the write lock, and any steps
of other threads may come in between.  The first call whose last look finds nothing stores its
instance, and from then on every call and every look-up of the key is answered that one instance.

    an entry stays, and the table never shrinks                     (Sound.entries_retaining_run)
    dropping handles leaves the table alone                         (Sound.tableAt_release)
    the call that stored an entry, and the answers before and after       (decided_of_run)
    calls begun = calls in progress + calls counted                       (begun_of_run)
    what is due for the calls on the table = its entries                  (Valid.dues_retaining)
    all of it for every run                                         (retaining_decides_once)
-/

namespace Interning

/-! ## Algorithm -/

/-- Whether a step begins a call on a table. -/
def Step.begins (t : TableId) : Step → Bool
  | begin u _ _ => u = t
  | _ => false

/-- Whether a step is a piece of dropping a handle. -/
def Step.isDrop : Step → Bool
  | release _ | detach _ | settle _ _ => true
  | _ => false

namespace World

/-- The entries of a table, as the reclamations that would be due for them. -/
def entryDues (w : World) (t : TableId) : List Reclamation :=
  (w.entries t).toList.map fun e => ⟨t, e.1, e.2⟩

/-- The bytes of the entries of a table: of each its key and the text of its instance. -/
def storedBytes (w : World) (t : TableId) : Nat :=
  ((w.entries t).toList.map fun e => e.1.utf8ByteSize + (w.text e.2).utf8ByteSize).sum

end World

namespace Machine

/-- The keys of the calls answered on a table. -/
def internedKeys (m : Machine) (t : TableId) : Finset String :=
  ((m.interned.filter fun x => x.1.table = t).map fun x => x.1.key).toFinset

/-- The number of calls in progress on a table. -/
def inProgress (m : Machine) (t : TableId) : Nat :=
  m.hand.countP fun x => x.call?.map Call.table = some t

/-- The last look of a call, at `m₁`, stored the entry that `m` has under its key. -/
structure FirstStored (steps : List Step) (m₁ m : Machine) (c : Call) (i : InstanceId) :
    Prop where
  reached : ∃ before after, steps = before ++ .enter c :: after ∧ run before {} = some m₁
  absent : (m₁.world.entries c.table).get? c.key = none
  present : (m.world.entries c.table).get? c.key = some i
  /-- The instance is the one given, or one that the call made of the text given. -/
  provided : c.argument = .handle i ∨
    ∃ s, c.argument = .text s ∧ i = m₁.world.instances.size ∧ m.world.text i = s
  /-- Before, look-ups found nothing, and no call was answered. -/
  earlier : ∀ a ∈ m₁.answers, a.table = c.table → a.key = c.key → a = .lookedUp c.table c.key none
  /-- Afterwards, every look-up and every call finds that instance. -/
  later : ∃ later, m.answers = later ++ .interned c (.stored i false none) :: m₁.answers ∧
    ∀ a ∈ later, a.table = c.table → a.key = c.key →
      a.instance? = some i ∧ ∀ d o, a = .interned d o → o = .hit i

/-- Nothing was stored under a key, nor answered for it, or one call stored what is answered. -/
def Decided (steps : List Step) (m : Machine) (t : TableId) (k : String) : Prop :=
  ((m.world.entries t).get? k = none ∧
    ∀ a ∈ m.answers, a.table = t → a.key = k → a = .lookedUp t k none) ∨
  ∃ c m₁ i, c.table = t ∧ c.key = k ∧ FirstStored steps m₁ m c i

/-- What the counters of a retaining table say of it. -/
structure RetainingCounted (steps : List Step) (m : Machine) (t : TableId) : Prop where
  /-- Each call is counted, and each one once. -/
  calls : (m.world.statsOf t).counters.calls.toNat = steps.countP (Step.begins t)
  hits : (m.world.statsOf t).counters.calls.toNat =
    (m.world.statsOf t).counters.hits.toNat + (m.world.statsOf t).counters.misses.toNat
  misses : (m.world.statsOf t).counters.misses.toNat = m.world.size t
  entries : (m.world.statsOf t).entries.toNat = m.world.size t
  keys : m.world.size t = (m.internedKeys t).card
  reclaimed : (m.world.statsOf t).counters.reclaimed = 0
  staleReplacements : (m.world.statsOf t).counters.staleReplacements = 0
  staleCallbacks : (m.world.statsOf t).counters.staleCallbacks = 0
  bytes : (m.world.statsOf t).counters.bytes.toNat = m.world.storedBytes t

/-- What holds of a retaining table as long as it is owned. -/
structure DecidesOnce (steps : List Step) (m : Machine) (t : TableId) : Prop where
  /-- No entry is ever removed or replaced, and the table never shrinks. -/
  kept : ∀ more m', run more m = some m' → m'.world.isOwned t = true →
    (∀ k i, (m.world.entries t).get? k = some i → (m'.world.entries t).get? k = some i) ∧
      m.world.size t ≤ m'.world.size t
  /-- Dropping a handle changes nothing about the table. -/
  dropped : ∀ s m', m.step s = some m' → s.isDrop = true →
    m'.world.tableAt t = m.world.tableAt t
  decided : ∀ k, m.Decided steps t k
  counted : m.inProgress t = 0 → steps.countP (Step.begins t) < 2 ^ 64 →
    m.world.storedBytes t < 2 ^ 64 → m.RetainingCounted steps t

end Machine

/-- Two calls of one key, whose first looks both find nothing: the one that began last stores its
instance, and the other one finds it. -/
def racingCalls : List Step :=
  let c : Call := ⟨0, "a", .handle 0⟩
  let d : Call := ⟨0, "a", .text "A"⟩
  [.newTable .retaining 0 false, .value "a", .begin 0 .asciiCaseFold (.handle 0),
    .begin 0 .asciiCaseFold (.text "A"), .check c, .check d, .enter d, .enter c,
    .record c (.hit 1), .release 0, .record d (.stored 1 false none), .lookup 0 "a"]

/-! ## Lemmas -/

/-- A map that has the entries of another one is as large. -/
theorem KeyMap.size_le_of_get? {m m' : KeyMap String InstanceId}
    (h : ∀ k i, m.get? k = some i → m'.get? k = some i) : m.size ≤ m'.size := by
  have hsub : m.toList ⊆ m'.toList := fun e he =>
    KeyMap.get?_eq_some_iff.1 (h e.1 e.2 (KeyMap.get?_eq_some_iff.2 he))
  exact (List.subperm_of_subset (List.Nodup.of_map _ m.keys_nodup) hsub).length_le

namespace Machine

variable {m m' : Machine} {s : Step} {steps : List Step} {t : TableId} {k : String}
  {i : InstanceId}

/-! ### What stays -/

/-- A table that is retaining and owned after a run was so before, unless it was not there. -/
theorem Sound.retaining_before (hm : m.Sound) (h : m.step s = some m')
    (hs : (m'.world.tableAt t).storage = .retaining)
    (ho : t < m'.world.tables.size → m'.world.isOwned t = true) :
    (m.world.tableAt t).storage = .retaining ∧
      (t < m.world.tables.size → m.world.isOwned t = true) := by
  have hx := hm.accounted.extends_step h
  rcases Nat.lt_or_ge t m.world.tables.size with ht | ht
  · refine ⟨(hx.storage t ht).symm.trans hs, fun _ => ?_⟩
    by_contra hn
    have hn := hx.disowned t ht (Bool.eq_false_iff.2 hn)
    rw [ho (Nat.lt_of_lt_of_le ht hx.tables)] at hn
    cases hn
  · refine ⟨?_, fun hlt => absurd hlt (Nat.not_lt.2 ht)⟩
    rw [World.tableAt, Array.getElem?_eq_none ht]
    rfl

/-- The entries of a retaining table stay through every run that leaves it owned. -/
theorem Sound.entries_retaining_run (hm : m.Sound) (h : run steps m = some m')
    (hs : (m.world.tableAt t).storage = .retaining) (ho : m'.world.isOwned t = true)
    (he : (m.world.entries t).get? k = some i) : (m'.world.entries t).get? k = some i := by
  have ht := World.lt_size_of_entry he
  have hp : m'.Sound ∧ m.world.Extends m'.world ∧
      (m'.world.isOwned t = true → (m'.world.entries t).get? k = some i) := by
    refine run_induction (P := fun x => x.Sound ∧ m.world.Extends x.world ∧
      (x.world.isOwned t = true → (x.world.entries t).get? k = some i)) ?_
      ⟨hm, .refl _, fun _ => he⟩ h
    rintro s - x x' ⟨hx, hext, hxe⟩ h
    have hext' := hx.accounted.extends_step h
    have htx := Nat.lt_of_lt_of_le ht hext.tables
    refine ⟨hx.step h, hext.trans hext', fun ho => ?_⟩
    refine hx.entries_retaining h ((hext.storage t ht).trans hs) ho (hxe ?_)
    by_contra hn
    rw [hext'.disowned t htx (Bool.eq_false_iff.2 hn)] at ho
    cases ho
  exact hp.2.2 ho

theorem Sound.not_done (hm : m.Sound) (hs : (m.world.tableAt t).storage = .retaining) :
    ∀ r ∈ m.done, r.table ≠ t := fun r hr =>
  hm.registered.not_reclaimed hs r (Multiset.mem_of_le m.done_le_reclamations hr)

/-- Dropping a handle leaves a retaining table alone: only reclaiming tables are told. -/
theorem Sound.tableAt_drop (hm : m.Sound) (h : m.step s = some m') (hd : s.isDrop = true)
    (hs : (m.world.tableAt t).storage = .retaining) :
    m'.world.tableAt t = m.world.tableAt t := by
  obtain ⟨rest, hh, -, rfl⟩ := exists_of_step h
  have hne : ∀ r ∈ m.reclamations, t ≠ r.table := fun r hr =>
    (hm.registered.not_reclaimed hs r hr).symm
  cases s with
  | release j =>
    show ((Step.release j).effect m.world).world.tableAt t = _
    rcases Step.effect_release j m.world with ⟨r, l, -, hr, -, he⟩ | ⟨-, l, he⟩
    · have htr : t ≠ r.table := by
        rintro rfl
        rw [hm.registered.reclaiming _ _ hr] at hs
        cases hs
      rw [he]
      exact World.tableAt_modifyTable_of_ne htr _
    · rw [he]
      rfl
  | detach r =>
    have hr : .owed r ∈ m.hand := mem_of_needs hh _ List.mem_cons_self
    have htr := hne r (mem_reclamations_of_owed hr)
    show ((Step.detach r).effect m.world).world.tableAt t = _
    by_cases h : (m.world.entries r.table).get? r.key = some r.gone
    · obtain ⟨l, he⟩ := Step.effect_detach_of_own h
      rw [he]
      exact World.tableAt_modifyTable_of_ne htr _
    · obtain ⟨l, he⟩ := Step.effect_detach_of_other h
      rw [he]
      rfl
  | settle r b =>
    have hr : .detached r b ∈ m.hand := mem_of_needs hh _ List.mem_cons_self
    have htr := hne r (mem_reclamations_of_detached hr)
    show ((r.settle b m.world).tables[t]?).getD default = _
    rw [r.tables_settle]
    exact (World.tableAt_modifyTable_of_ne htr _).trans (World.tableAt_modifyTable_of_ne htr _)
  | _ => cases hd

/-! ### Who stores -/

/-- What a retaining table has under a key is what it answers for it. -/
theorem Accounted.answer_retaining (hm : m.Accounted)
    (hs : (m.world.tableAt t).storage = .retaining) (he : (m.world.entries t).get? k = some i)
    {a : Answer} (ha : (s.effect m.world).answer = some a) (ht : a.table = t) (hk : a.key = k) :
    a.instance? = some i ∧ ∀ c o, a = .interned c o → o = .hit i := by
  subst ht hk
  have hl := hm.isLive_retaining hs he
  have hf : m.world.live? a.table a.key = some i := World.live?_eq_some_iff.2 ⟨he, hl⟩
  rcases Step.answer_cases ha with ⟨hi, hhit⟩ | ⟨c, x, rejected, w₁, j, -, hn, -, rfl, -⟩
  · refine ⟨hi.trans hf, fun c o hc => ?_⟩
    have ho := hhit c o hc
    rw [hc, Answer.instance?] at hi
    rw [ho, Option.some.inj (hi.trans (hc ▸ hf))]
  · cases hn.symm.trans hf

/-- What was stored first stays stored, and goes on being answered. -/
theorem FirstStored.step {m₁ : Machine} {c : Call} (hf : FirstStored steps m₁ m c i)
    (hm : m.Sound) (h : m.step s = some m')
    (hs : (m.world.tableAt c.table).storage = .retaining)
    (ho : m'.world.isOwned c.table = true) : FirstStored (steps ++ [s]) m₁ m' c i := by
  have hlt := World.lt_size_of_isLive (hm.accounted.isLive_retaining hs hf.present)
  obtain ⟨⟨before, after, rfl, hrun⟩, habsent, hpresent, hprovided, hearlier,
    ⟨later, hanswers, hlater⟩⟩ := hf
  refine ⟨⟨before, after ++ [s], by simp, hrun⟩, habsent,
    hm.entries_retaining h hs ho hpresent, ?_, hearlier,
    (s.effect m.world).answer.toList ++ later, ?_, ?_⟩
  · rcases hprovided with hi | ⟨text, hc, hi, htext⟩
    · exact .inl hi
    · exact .inr ⟨text, hc, hi, ((hm.accounted.extends_step h).text i hlt).trans htext⟩
  · rw [answers_step h, hanswers, List.append_assoc]
  · intro a ha ht hk
    rcases List.mem_append.1 ha with ha | ha
    · exact hm.accounted.answer_retaining hs hpresent (Option.mem_toList.1 ha) ht hk
    · exact hlater a ha ht hk

/-- The last look of a call that finds nothing stores what the call provides. -/
theorem Sound.firstStored (hm : m.Sound) {c : Call} (hrun : run steps {} = some m)
    (h : m.step (.enter c) = some m') (hs : (m.world.tableAt c.table).storage = .retaining)
    (he : (m.world.entries c.table).get? c.key = none)
    (hans : ∀ a ∈ m.answers, a.table = c.table → a.key = c.key → a = .lookedUp c.table c.key none) :
    ∃ i, FirstStored (steps ++ [.enter c]) m m' c i := by
  have hf : m.world.live? c.table c.key = none := by rw [World.live?, he]; rfl
  obtain ⟨rest, hh, -, rfl⟩ := exists_of_step h
  obtain ⟨x, rejected, w₁, j, hp, heff⟩ := Step.effect_enter_of_none hf
  have ht : c.table < w₁.tables.size := by
    rw [hp.tables]
    exact World.lt_size_of_isOwned
      (hm.accounted.isOwned_call (mem_of_needs hh (.missed c) List.mem_cons_self) rfl)
  have hw : (m.next (.enter c) rest).world = (w₁.install c.table c.key x).withJournal j := by
    show ((Step.enter c).effect m.world).world = _
    rw [heff]
    rfl
  have hrejected : rejected = none := by
    cases hp with
    | copy _ hrec => cases hs.symm.trans hrec
    | _ => rfl
  refine ⟨x, ⟨steps, [], rfl, hrun⟩, he, ?_, ?_, hans, [], ?_,
    fun _ hmem => absurd hmem List.not_mem_nil⟩
  · rw [hw]
    exact (World.get?_install ht c.key x c.table c.key x).2 (.inl ⟨rfl, rfl, rfl⟩)
  · have htext : (m.next (.enter c) rest).world.text x = c.argument.value m.world := by
      rw [hw]
      exact (World.text_install c.table c.key x x).trans hp.text_self
    cases hp with
    | given ha => exact .inl ha
    | fresh ha => exact .inr ⟨_, ha, rfl, htext.trans (by rw [ha]; rfl)⟩
    | copy _ hrec => cases hs.symm.trans hrec
  · rw [answers_step h, heff, hrejected, KeyMap.contains_eq_false_iff.2 he]
    rfl

theorem Decided.step (hd : m.Decided steps t k) (hm : m.Sound) (hrun : run steps {} = some m)
    (h : m.step s = some m') (hs : (m.world.tableAt t).storage = .retaining)
    (ho : t < m'.world.tables.size → m'.world.isOwned t = true) :
    m'.Decided (steps ++ [s]) t k := by
  have hx := hm.accounted.extends_step h
  rcases hd with ⟨hn, hans⟩ | ⟨c, m₁, i, rfl, rfl, hf⟩
  · have hlive : m.world.live? t k = none := by rw [World.live?, hn]; rfl
    by_cases hc : ∃ c, s = .enter c ∧ c.table = t ∧ c.key = k
    · obtain ⟨c, rfl, rfl, rfl⟩ := hc
      obtain ⟨i, hi⟩ := hm.firstStored hrun h hs hn hans
      exact .inr ⟨c, m, i, rfl, rfl, hi⟩
    · -- No other step stores under the key, or answers anything but that there is nothing.
      refine .inl ⟨?_, fun a ha ht hk => ?_⟩
      · rw [← Option.not_isSome_iff_eq_none, Option.isSome_iff_exists]
        rintro ⟨i, hi⟩
        obtain ⟨rest, -, -, rfl⟩ := exists_of_step h
        rcases Step.entry_origin hi with hi | ⟨c, -, -, -, hsc, hct, hck, -⟩
        · cases hn.symm.trans hi
        · exact hc ⟨c, hsc, hct, hck⟩
      · rw [answers_step h, List.mem_append, Option.mem_toList] at ha
        rcases ha with ha | ha
        · rcases Step.answer_cases ha with ⟨hi, -⟩ | ⟨c, x, rejected, w₁, j, hsc, -, -, rfl, -⟩
          · rw [ht, hk, hlive] at hi
            cases a with
            | interned c o => cases hi
            | lookedUp u key found =>
              obtain rfl : u = t := ht
              obtain rfl : key = k := hk
              exact congrArg _ hi
          · exact absurd ⟨c, hsc, ht, hk⟩ hc
        · exact hans a ha ht hk
  · have ht := Nat.lt_of_lt_of_le (World.lt_size_of_entry hf.present) hx.tables
    exact .inr ⟨c, m₁, i, rfl, rfl, hf.step hm h hs (ho ht)⟩

/-- In every run that leaves a retaining table owned, each key is decided once. -/
theorem decided_of_run (h : run steps {} = some m)
    (hs : (m.world.tableAt t).storage = .retaining) (ho : m.world.isOwned t = true) (k : String) :
    m.Decided steps t k := by
  refine run_concat_induction (P := fun steps x => (x.world.tableAt t).storage = .retaining →
    (t < x.world.tables.size → x.world.isOwned t = true) → x.Decided steps t k) ?_ ?_ h hs
    fun _ => ho
  · exact fun _ _ => .inl ⟨rfl, nofun⟩
  · intro before s x x' hrun hx h hs ho
    have hsound := sound_of_run hrun
    obtain ⟨hs', ho'⟩ := hsound.retaining_before h hs ho
    exact (hx hs' ho').step hsound hrun h hs' ho

end Machine

/-! ### Calls begun and calls counted -/

/-- Of the tokens that a step takes and gives, a call is begun, handed on or counted. -/
theorem Step.calls_balanced (s : Step) (w : World) (t : TableId) :
    (s.effect w).gains.countP (fun x => x.call?.map Call.table = some t) +
        s.recorded.toList.countP (fun x => x.1.table = t ∧ true = true) =
      s.needs.countP (fun x => x.call?.map Call.table = some t) +
        if s.begins t = true then 1 else 0 := by
  cases s with
  | begin u f a =>
    have hu : (Call.begin u f a w).1.table = u := rfl
    simp [effect, hu, needs, recorded, begins, Token.call?, List.countP_cons, Function.comp_def]
  | release i =>
    rcases effect_release i w with ⟨r, j, -, -, -, he⟩ | ⟨-, j, he⟩ <;>
      simp [he, needs, recorded, begins, Token.call?]
  | check c =>
    rcases effect_check c w with ⟨-, i, j, -, he⟩ | ⟨-, j, he⟩ <;>
      simp [he, Call.answered, needs, recorded, begins, Token.call?, List.countP_cons]
  | _ =>
    simp [effect, Call.answered, needs, recorded, begins, Token.call?, List.countP_cons]

namespace Machine

variable {m m' : Machine} {s : Step} {steps : List Step} {t : TableId}

/-- A call that was begun is in progress or counted. -/
theorem begun_of_run (h : run steps {} = some m) (t : TableId) :
    steps.countP (Step.begins t) = m.inProgress t + m.callsOf t fun _ => true := by
  refine run_concat_induction (P := fun steps x => steps.countP (Step.begins t) =
    x.inProgress t + x.callsOf t fun _ => true) rfl ?_ h
  intro before s x x' _ hx h
  have hcalls := callsOf_step (t := t) h fun _ => true
  have hbalance := s.calls_balanced x.world t
  obtain ⟨rest, hh, -, rfl⟩ := exists_of_step h
  have hbefore : x.inProgress t = rest.countP (fun x => x.call?.map Call.table = some t) +
      s.needs.countP (fun x => x.call?.map Call.table = some t) := by
    rw [inProgress, hh, Multiset.countP_add, Multiset.coe_countP]
  have hafter : (x.next s rest).inProgress t =
      rest.countP (fun x => x.call?.map Call.table = some t) +
        (s.effect x.world).gains.countP fun x => x.call?.map Call.table = some t := by
    show (rest + ↑(s.effect x.world).gains).countP _ = _
    rw [Multiset.countP_add, Multiset.coe_countP]
  rw [List.countP_append, List.countP_singleton, hcalls, hafter]
  omega

/-- Where no call is in progress, nothing stands between its lock and its counting. -/
theorem entered_of_inProgress (h : m.inProgress t = 0) : ∀ p ∈ m.entered, p.1.table ≠ t := by
  rintro ⟨c, o⟩ hp rfl
  obtain ⟨x, hx, hxe⟩ := (Multiset.mem_filterMap _ _).1 hp
  refine Multiset.countP_eq_zero.1 h x hx ?_
  cases x <;> simp_all [Token.entered?, Token.call?]

/-! ### What was stored is there -/

/-- A call that stored something did not take over an entry, and what it stored is there. -/
theorem Decided.of_due {r : Reclamation} (hd : m.Decided steps r.table r.key) {c : Call}
    {o : Outcome} (ha : .interned c o ∈ m.answers) (hr : c.due o = some r) :
    o.isStale = false ∧ (m.world.entries r.table).get? r.key = some r.gone := by
  cases o with
  | hit j => cases hr
  | stored j stale rejected =>
    obtain rfl := Option.some.inj hr
    rcases hd with ⟨-, hans⟩ | ⟨d, m₁, i, ht, hk, hf⟩
    · cases hans _ ha rfl rfl
    · obtain ⟨later, hanswers, hlater⟩ := hf.later
      rw [hanswers, List.mem_append, List.mem_cons] at ha
      rcases ha with ha | ha | ha
      · cases (hlater _ ha ht.symm hk.symm).2 c _ rfl
      · obtain ⟨rfl, ho⟩ := Answer.interned.inj ha
        obtain ⟨rfl, rfl, -⟩ := Outcome.stored.inj ho
        exact ⟨rfl, hf.present⟩
      · cases hf.earlier _ ha ht.symm hk.symm

theorem mem_interned {c : Call} {o : Outcome} :
    (c, o) ∈ m.interned ↔ .interned c o ∈ m.answers := by
  rw [interned, List.mem_filterMap]
  constructor
  · rintro ⟨a, ha, hc⟩
    cases a with
    | lookedUp => cases hc
    | interned d o' =>
      obtain ⟨rfl, rfl⟩ := Prod.mk.inj (Option.some.inj hc)
      exact ha
  · exact fun h => ⟨_, h, rfl⟩

/-- An entry of a retaining table was stored by a call that was answered so. -/
theorem Decided.stored_of_get? {k : String} {i : InstanceId} (hd : m.Decided steps t k)
    (he : (m.world.entries t).get? k = some i) :
    ∃ c, c.table = t ∧ c.key = k ∧ (c, .stored i false none) ∈ m.interned := by
  rcases hd with ⟨hn, -⟩ | ⟨c, m₁, j, rfl, rfl, hf⟩
  · cases hn.symm.trans he
  · obtain rfl := Option.some.inj (hf.present.symm.trans he)
    obtain ⟨later, hanswers, -⟩ := hf.later
    refine ⟨c, rfl, rfl, mem_interned.2 ?_⟩
    rw [hanswers]
    exact List.mem_append_right _ List.mem_cons_self

/-- What is due for the calls on a retaining table are its entries. -/
theorem Valid.dues_retaining (hm : m.Valid) (hs : (m.world.tableAt t).storage = .retaining)
    (ho : m.world.isOwned t = true) (hd : ∀ k, m.Decided steps t k) :
    (dues m.interned).filter (fun r => r.table = t) =
      (m.world.entryDues t : Multiset Reclamation) := by
  have hstale : staleCalls t m.interned = 0 := by
    refine Multiset.countP_eq_zero.2 ?_
    rintro ⟨c, o⟩ hp ⟨ht, hstale⟩
    have ht : c.table = t := ht
    subst ht
    cases o with
    | hit j => cases hstale
    | stored j stale rejected =>
      have h := ((hd c.key).of_due (r := ⟨c.table, c.key, j⟩) (mem_interned.1 hp) rfl).1
      cases h.symm.trans hstale
  have hremovals : removals t m.spent = 0 := by
    refine Multiset.countP_eq_zero.2 fun p hp hc => ?_
    exact hm.sound.registered.not_reclaimed hs p.1
      (Multiset.mem_add.2 (.inr (Multiset.mem_map_of_mem Prod.fst hp))) hc.1
  have hsize := hm.installed.size t fun _ hn => by cases ho.symm.trans hn
  rw [hstale, hremovals, Multiset.countP_eq_card_filter] at hsize
  have hnodup : (m.world.entryDues t).Nodup := by
    refine List.Nodup.map_on ?_ (List.Nodup.of_map _ (m.world.entries t).keys_nodup)
    rintro ⟨k, i⟩ - ⟨k', i'⟩ - h
    obtain ⟨-, rfl, rfl⟩ := Reclamation.mk.inj h
    rfl
  refine (Multiset.eq_of_le_of_card_le
    ((Multiset.le_iff_subset (Multiset.coe_nodup.2 hnodup)).2 ?_) ?_).symm
  · intro r hr
    obtain ⟨⟨k, i⟩, he, rfl⟩ := List.mem_map.1 (Multiset.mem_coe.1 hr)
    obtain ⟨c, rfl, rfl, hc⟩ := (hd k).stored_of_get? (KeyMap.get?_eq_some_iff.2 he)
    exact Multiset.mem_filter.2
      ⟨(Multiset.mem_filterMap _ _).2 ⟨_, Multiset.mem_coe.2 hc, rfl⟩, rfl⟩
  · rw [← hsize, Multiset.coe_card, World.entryDues, List.length_map]
    exact Nat.le_refl _

theorem Valid.internedBytes_retaining (hm : m.Valid)
    (hs : (m.world.tableAt t).storage = .retaining) (ho : m.world.isOwned t = true)
    (hd : ∀ k, m.Decided steps t k) : m.internedBytes (· = t) = m.world.storedBytes t := by
  have h := hm.dues_retaining hs ho hd
  rw [internedBytes, World.bytesDue]
  simp only [decide_eq_true_eq]
  rw [h, Multiset.map_coe, Multiset.sum_coe, World.entryDues, List.map_map]
  rfl

/-- The keys asked for are the keys of the entries. -/
theorem size_eq_internedKeys (hd : ∀ k, m.Decided steps t k) :
    m.world.size t = (m.internedKeys t).card := by
  have hkeys : m.internedKeys t = (m.world.entries t).keys.toFinset := by
    refine Finset.ext fun k => ?_
    rw [internedKeys, List.mem_toFinset, List.mem_toFinset, KeyMap.keys, List.mem_map, List.mem_map]
    constructor
    · rintro ⟨⟨c, o⟩, hp, rfl⟩
      obtain ⟨hp, ht⟩ := List.mem_filter.1 hp
      have ht : c.table = t := of_decide_eq_true ht
      rcases hd c.key with ⟨-, hans⟩ | ⟨d, m₁, i, rfl, hk, hf⟩
      · cases hans _ (mem_interned.1 hp) ht rfl
      · refine ⟨(c.key, i), KeyMap.get?_eq_some_iff.1 ?_, rfl⟩
        rw [← hk]
        exact hf.present
    · rintro ⟨⟨k, i⟩, he, rfl⟩
      obtain ⟨c, ht, hk, hc⟩ := (hd k).stored_of_get? (KeyMap.get?_eq_some_iff.2 he)
      exact ⟨_, List.mem_filter.2 ⟨hc, decide_eq_true ht⟩, hk⟩
  have hcard : (m.world.entries t).keys.toFinset.card = (m.world.entries t).keys.length :=
    List.toFinset_card_of_nodup (m.world.entries t).keys_nodup
  rw [hkeys, hcard, KeyMap.keys, List.length_map]
  rfl

/-! ### What is counted -/

/-- Where nothing stands between its lock and its counting, a retaining table counted a miss for
each of its entries. -/
theorem Valid.misses_retaining (hm : m.Valid) (hs : (m.world.tableAt t).storage = .retaining)
    (ho : m.world.isOwned t = true) (hd : ∀ k, m.Decided steps t k) (hq : m.Quiescent t) :
    (m.callsOf t fun o => !o.isHit) = m.world.size t := by
  have hzero : (dues m.entered).filter (fun r => r.table = t) = 0 :=
    Multiset.filter_eq_nil.2 hq.dues_entered
  have hdues := hm.dues_retaining hs ho hd
  rw [hm.installed.calls, dues_add, Multiset.filter_add, hzero, zero_add] at hdues
  rw [callsOf_misses, Multiset.countP_eq_card_filter, hdues, Multiset.coe_card, World.entryDues,
    List.length_map]
  rfl

/-- What is stored only grows. -/
theorem Valid.internedBytes_le_step (hm : m.Valid) (h : m.step s = some m')
    (p : TableId → Bool) : m.internedBytes p ≤ m'.internedBytes p := by
  have hx := hm.sound.accounted.extends_step h
  have heq : m'.world.bytesDue p (dues m.interned) = m.internedBytes p :=
    World.bytesDue_congr p hx hm.lt_size_of_due
  rw [← heq, internedBytes, interned_step h, ← Multiset.coe_add, dues_add]
  exact World.bytesDue_le p (Multiset.le_add_left _ _)

/-- Where all that was ever stored in a table fits in a word, its byte counter is exact. -/
theorem bytes_of_internedBytes (h : run steps {} = some m)
    (hb : m.internedBytes (· = t) < 2 ^ 64) :
    (m.world.tableAt t).counters.bytes.toNat + m.doneBytes (· = t) = m.recordedBytes (· = t) := by
  have hp : m.Valid ∧ (m.internedBytes (· = t) < 2 ^ 64 →
      (m.world.tableAt t).counters.bytes.toNat + m.doneBytes (· = t) =
        m.recordedBytes (· = t)) := by
    refine run_induction (P := fun x => x.Valid ∧ (x.internedBytes (· = t) < 2 ^ 64 →
      (x.world.tableAt t).counters.bytes.toNat + x.doneBytes (· = t) =
        x.recordedBytes (· = t))) ?_ ⟨valid_empty, fun _ => rfl⟩ h
    rintro s - x x' ⟨hx, hxb⟩ h
    refine ⟨hx.step h, fun hb => ?_⟩
    have hle := hx.internedBytes_le_step h (· = t)
    have hrec := ((hx.step h).bytes_le (· = t)).2
    exact hx.bytes_step h t (fun _ => by omega) (hxb (by omega))
  exact hp.2 hb

theorem retainingCounted_of_run (h : run steps {} = some m)
    (hs : (m.world.tableAt t).storage = .retaining) (ho : m.world.isOwned t = true)
    (hq : m.inProgress t = 0) (hn : steps.countP (Step.begins t) < 2 ^ 64)
    (hb : m.world.storedBytes t < 2 ^ 64) : m.RetainingCounted steps t := by
  have hm := valid_of_run h
  have hd := decided_of_run h hs ho
  have hbegun := begun_of_run h t
  obtain ⟨hcalls, hhits, hmisses, hstale, hreclaimed, hcallbacks⟩ := tallied_of_run h t
  have hsplit := m.callsOf_split t
  have hquiet : m.Quiescent t := ⟨entered_of_inProgress hq, fun p hp =>
    hm.sound.registered.not_reclaimed hs p.1 (Multiset.mem_add.2 (.inr
      (Multiset.mem_map_of_mem Prod.fst (Multiset.mem_add.2 (.inl hp)))))⟩
  have hdoneTable := hm.sound.not_done hs
  have hsize := hm.misses_retaining hs ho hd hquiet
  have hdone : ∀ p, m.doneOf t p = 0 := by
    intro p
    refine List.countP_eq_zero.2 fun x hx hc => ?_
    exact hdoneTable x.1 (Multiset.mem_coe.2 (List.mem_map_of_mem hx)) (of_decide_eq_true hc).1
  have hfresh : m.callsOf t Outcome.isStale = 0 := by
    refine List.countP_eq_zero.2 ?_
    rintro ⟨c, o⟩ hp hc
    obtain ⟨ht, hstale⟩ := of_decide_eq_true hc
    have ht : c.table = t := ht
    subst ht
    have hp : (c, o) ∈ m.interned := by
      rw [← Multiset.mem_coe, hm.installed.calls]
      exact Multiset.mem_add.2 (.inr (Multiset.mem_coe.2 hp))
    cases o with
    | hit j => cases hstale
    | stored j stale rejected =>
      have h := ((hd c.key).of_due (r := ⟨c.table, c.key, j⟩) (mem_interned.1 hp) rfl).1
      cases h.symm.trans hstale
  have hword : ∀ n ≤ steps.countP (Step.begins t), (UInt64.ofNat n).toNat = n := fun n hle =>
    toNat_ofNat hle hn
  refine ⟨?_, ?_, ?_, hword _ (by omega), size_eq_internedKeys hd, ?_, ?_, ?_, ?_⟩
  · show (m.world.tableAt t).counters.calls.toNat = _
    rw [hcalls, hword _ (by omega)]
    omega
  · show (m.world.tableAt t).counters.calls.toNat = (m.world.tableAt t).counters.hits.toNat +
      (m.world.tableAt t).counters.misses.toNat
    rw [hcalls, hhits, hmisses, hword _ (by omega), hword _ (by omega), hword _ (by omega)]
    exact hsplit
  · show (m.world.tableAt t).counters.misses.toNat = _
    rw [hmisses, hword _ (by omega), hsize]
  · show (m.world.tableAt t).counters.reclaimed = 0
    rw [hreclaimed, hdone]
    rfl
  · show (m.world.tableAt t).counters.staleReplacements = 0
    rw [hstale, hfresh]
    rfl
  · show (m.world.tableAt t).counters.staleCallbacks = 0
    rw [hcallbacks, hdone]
    rfl
  · show (m.world.tableAt t).counters.bytes.toNat = _
    have hinterned := hm.internedBytes_retaining hs ho hd
    have hbytes := bytes_of_internedBytes (t := t) h (by omega)
    have hback : m.doneBytes (· = t) = 0 :=
      World.bytesDue_eq_zero _ fun r hr => decide_eq_false (hdoneTable r hr)
    have hforth : m.internedBytes (· = t) = m.recordedBytes (· = t) := by
      rw [internedBytes, hm.installed.calls, dues_add, World.bytesDue_add,
        World.bytesDue_eq_zero _ fun r hr => decide_eq_false (hquiet.dues_entered r hr),
        Nat.zero_add]
      rfl
    omega

/-- A retaining table decides once for each key, whatever other threads do between the two looks of
a call; its counters say so when no call is in progress. -/
theorem retaining_decides_once (steps : List Step) (m : Machine) (t : TableId)
    (h : run steps {} = some m) (hs : (m.world.tableAt t).storage = .retaining)
    (ho : m.world.isOwned t = true) : m.DecidesOnce steps t := by
  have hm := sound_of_run h
  refine ⟨fun more m' hmore ho' => ?_, fun s m' hstep hd => hm.tableAt_drop hstep hd hs,
    decided_of_run h hs ho, retainingCounted_of_run h hs ho⟩
  have hkeep : ∀ k i, (m.world.entries t).get? k = some i →
      (m'.world.entries t).get? k = some i := fun k i he =>
    hm.entries_retaining_run hmore hs ho' he
  exact ⟨hkeep, KeyMap.size_le_of_get? hkeep⟩

/-- Of two racing calls one stores its instance; the table counts both. -/
theorem retaining_decides_once_racing :
    ∃ m, run racingCalls {} = some m ∧ m.DecidesOnce racingCalls 0 ∧
      m.RetainingCounted racingCalls 0 ∧ (m.world.entries 0).get? "a" = some 1 := by
  let m := (run racingCalls {}).get (by decide +kernel)
  have h : run racingCalls {} = some m := (Option.some_get _).symm
  have hd : m.DecidesOnce racingCalls 0 :=
    retaining_decides_once racingCalls m 0 h (by decide +kernel) (by decide +kernel)
  refine ⟨m, h, hd, hd.counted ?_ ?_ ?_, ?_⟩
  · decide +kernel
  · decide +kernel
  · decide +kernel
  · decide +kernel

end Machine

end Interning
