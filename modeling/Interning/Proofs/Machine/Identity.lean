import Interning.Interner
import Interning.Proofs.Machine.Answers

/-!
# Identity is equality of keys

When every call on a table begins with one normalizer, the key that an instance is stored under is
the key of its text.  So the instances that the table answers are told apart by the keys of their
texts, whatever the normalizer and whatever the order of steps.

    f.key (w.text i) = k for an instance i stored under k, or answered for k      (Keyed)
    i = j ↔ f.key (w.text i) = f.key (w.text j) for answered live instances
    a call given an instance that was answered before answers that instance
                                                                (Interner.identity_iff_key)
-/

namespace Interning

/-! ## Algorithm -/

/-- The key of a call is the key of its value. -/
structure Call.Keyed (f : Normalizer) (w : World) (c : Call) : Prop where
  argument : ∀ i ∈ c.argument.leftover, i < w.instances.size
  key : c.key = f.key (c.argument.value w)

/-- The keys of a table are the keys of the texts. -/
structure Machine.Keyed (f : Normalizer) (t : TableId) (m : Machine) : Prop where
  calls : ∀ x ∈ m.hand, ∀ c, x.call? = some c → c.table = t → c.Keyed f m.world
  entries : ∀ k i, (m.world.entries t).get? k = some i →
    i < m.world.instances.size ∧ f.key (m.world.text i) = k
  answers : ∀ a ∈ m.answers, a.table = t → ∀ i ∈ a.instance?, f.key (m.world.text i) = a.key
  asked : ∀ c o, .interned c o ∈ m.answers → c.table = t → c.Keyed f m.world

/-- A call given an instance that was answered before answers that instance. -/
def Machine.Idempotent (t : TableId) (m : Machine) : Prop :=
  ∀ later c o earlier, m.answers = later ++ .interned c o :: earlier → c.table = t →
    ∀ i, c.argument = .handle i → (∃ a ∈ earlier, a.table = t ∧ i ∈ a.instance?) → o.canonical = i

/-- Two calls whose texts differ in case. -/
def foldedCalls : List Step :=
  let c : Call := ⟨0, "ab", .text "Ab"⟩
  let d : Call := ⟨0, "ab", .text "aB"⟩
  [.newTable .reclaiming 0 false, .begin 0 .asciiCaseFold (.text "Ab"), .check c, .enter c,
    .record c (.stored 0 false none), .begin 0 .asciiCaseFold (.text "aB"), .check d, .enter d,
    .record d (.hit 0)]

/-! ## Lemmas -/

theorem Argument.value_eq {w w' : World} (h : w.Extends w') {a : Argument}
    (ha : ∀ i ∈ a.leftover, i < w.instances.size) : a.value w' = a.value w := by
  cases a with
  | handle i => exact h.text i (ha i rfl)
  | text s => rfl

theorem Call.Keyed.grows {f : Normalizer} {w w' : World} {c : Call} (hc : c.Keyed f w)
    (h : w.Extends w') : c.Keyed f w' := by
  refine ⟨fun i hi => Nat.lt_of_lt_of_le (hc.argument i hi) h.instances, ?_⟩
  rw [Argument.value_eq h hc.argument]
  exact hc.key

/-- A call that is answered was in hand, with the handle that it was given. -/
theorem Step.asked_call {s : Step} {w : World} {c : Call} {o : Outcome}
    (h : (s.effect w).answer = some (.interned c o)) :
    ∃ x ∈ s.needs, x.call? = some c ∧ x.handles = c.argument.leftover.toList := by
  cases s with
  | check d =>
    rcases effect_check d w with ⟨-, i, j, -, he⟩ | ⟨-, j, he⟩
    · rw [he] at h
      obtain ⟨rfl, -⟩ := Answer.interned.inj (Option.some.inj h)
      exact ⟨_, List.mem_cons_self, rfl, rfl⟩
    · rw [he] at h
      cases h
  | enter d =>
    obtain ⟨rfl, -⟩ := Answer.interned.inj (Option.some.inj h)
    exact ⟨_, List.mem_cons_self, rfl, rfl⟩
  | newTable | share | disown | value | clone | release | normalize | lookup | begin | record
  | detach | settle => cases h

namespace Machine

variable {m m' : Machine} {s : Step} {f : Normalizer} {t : TableId}

/-- The text that a call stores has the key of the call. -/
theorem Keyed.key_stored (hk : m.Keyed f t) {c : Call} (hx : .missed c ∈ m.hand)
    (ht : c.table = t) {x : InstanceId} {rejected : Option InstanceId} {w₁ : World}
    (hp : c.Provides m.world x rejected w₁) :
    f.key ((w₁.install c.table c.key x).text x) = c.key := by
  rw [World.text_install, hp.text_self, (hk.calls _ hx c rfl ht).key]

theorem Keyed.entries_step (hm : m.Sound) (h : m.step s = some m') (hk : m.Keyed f t) {k : String}
    {i : InstanceId} (hi : (m'.world.entries t).get? k = some i) :
    i < m'.world.instances.size ∧ f.key (m'.world.text i) = k := by
  have hx := hm.accounted.extends_step h
  obtain ⟨rest, hh, -, hm'⟩ := exists_of_step h
  have hw : m'.world = (s.effect m.world).world := by rw [hm']; rfl
  rw [hw] at hi
  rcases Step.entry_origin hi with hi | ⟨c, rejected, w₁, j, rfl, rfl, rfl, -, hp, he⟩
  · obtain ⟨hs, htext⟩ := hk.entries k i hi
    rw [hx.text i hs]
    exact ⟨Nat.lt_of_lt_of_le hs hx.instances, htext⟩
  · have hmissed := mem_of_needs hh (.missed c) List.mem_cons_self
    have hl : ∀ i ∈ c.argument.leftover, m.world.isLive i = true := fun i hi =>
      hm.accounted.isLive hmissed (Option.mem_toList.2 hi)
    have hg := World.extends_install (t := c.table) c.key (hp.isLive_self hl)
      fun h => hp.registration_self (by rwa [← hp.tableAt])
    rw [hw, he]
    exact ⟨Nat.lt_of_lt_of_le (lt_size_provides hl hp) hg.instances, hk.key_stored hmissed rfl hp⟩

/-- An answer is the instance stored under the key at that moment or just before it. -/
theorem Keyed.answer_step (hm : m.Sound) (h : m.step s = some m') (hk : m.Keyed f t) {a : Answer}
    (ha : (s.effect m.world).answer = some a) (ht : a.table = t) {i : InstanceId}
    (hi : i ∈ a.instance?) : f.key (m'.world.text i) = a.key := by
  have hx := hm.accounted.extends_step h
  obtain ⟨rest, hh, -, hm'⟩ := exists_of_step h
  rcases Step.answer_cases ha with ⟨hl, -⟩ | ⟨c, x, rejected, w₁, j, rfl, -, hp, rfl, he⟩
  · have hl := (World.live?_eq_some_iff.1 (hl.symm.trans hi)).1
    rw [ht] at hl
    obtain ⟨hs, htext⟩ := hk.entries a.key i hl
    rw [hx.text i hs]
    exact htext
  · obtain rfl : x = i := Option.some.inj hi
    have hw : m'.world = ((Step.enter c).effect m.world).world := by rw [hm']; rfl
    rw [hw, he]
    exact hk.key_stored (mem_of_needs hh (.missed c) List.mem_cons_self) ht hp

theorem Keyed.step (hm : m.Sound) (hma : m.Answered) (h : m.step s = some m')
    (hf : ∀ g a, s = .begin t g a → g = f) (hk : m.Keyed f t) : m'.Keyed f t := by
  have hx := hm.accounted.extends_step h
  have hans := answers_step h
  obtain ⟨rest, hh, -, hm'⟩ := exists_of_step h
  have hneeds := mem_of_needs hh
  have hold : ∀ x ∈ m.hand, ∀ c, x.call? = some c → c.table = t → c.Keyed f m'.world :=
    fun x hxm c hc ht => (hk.calls x hxm c hc ht).grows hx
  have hmem : ∀ a ∈ m'.answers, (s.effect m.world).answer = some a ∨ a ∈ m.answers := by
    intro a ha
    rw [hans, List.mem_append, Option.mem_toList] at ha
    exact ha
  constructor
  case calls =>
    intro x hxm c hc ht
    rw [hm'] at hxm
    rcases Multiset.mem_add.1 hxm with hxm | hxm
    · exact hold x (hh ▸ Multiset.mem_add.2 (.inl hxm)) c hc ht
    · rcases Step.call?_of_mem_gains (Multiset.mem_coe.1 hxm) hc with
        ⟨u, g, a, rfl, rfl⟩ | ⟨y, hy, hyc⟩
      · obtain rfl : u = t := ht
        obtain rfl := hf g a rfl
        refine Call.Keyed.grows ⟨fun i hi => ?_, rfl⟩ hx
        refine World.lt_size_of_isLive (hm.accounted.isLive (x := .handle i) (hneeds _ ?_)
          List.mem_cons_self)
        exact List.mem_cons_of_mem _ (List.mem_map.2 ⟨i, Option.mem_toList.2 hi, rfl⟩)
      · exact hold y (hneeds y hy) c hyc ht
  case entries =>
    intro k i hi
    exact hk.entries_step hm h hi
  case answers =>
    intro a ha ht i hi
    rcases hmem a ha with hs | ha
    · exact hk.answer_step hm h hs ht hi
    · rw [hx.text i (hma.instance? a ha i hi)]
      exact hk.answers a ha ht i hi
  case asked =>
    intro c o ha ht
    rcases hmem _ ha with hs | ha
    · obtain ⟨x, hxn, hxc, -⟩ := Step.asked_call hs
      exact hold x (hneeds x hxn) c hxc ht
    · exact (hk.asked c o ha ht).grows hx

theorem Idempotent.step (hm : m.Sound) (hma : m.Answered) (h : m.step s = some m')
    (hk : m.Keyed f t) (hi : m.Idempotent t) : m'.Idempotent t := by
  intro later c o earlier heq ht i hc hret
  have hans := answers_step h
  rw [heq] at hans
  -- Either the answer was there before, or this step gives it.
  cases hs : (s.effect m.world).answer with
  | none =>
    rw [hs] at hans
    exact hi later c o earlier hans.symm ht i hc hret
  | some b =>
    rw [hs] at hans
    cases later with
    | cons b' later =>
      exact hi later c o earlier (List.cons.inj hans).2.symm ht i hc hret
    | nil =>
      obtain ⟨rfl, rfl⟩ := List.cons.inj hans
      obtain ⟨a, ha, hta, hia⟩ := hret
      obtain ⟨rest, hh, -, -⟩ := exists_of_step h
      obtain ⟨x, hxn, hxc, hxh⟩ := Step.asked_call hs
      have hx := mem_of_needs hh x hxn
      have hl : m.world.isLive i = true := by
        refine hm.accounted.isLive hx ?_
        rw [hxh, hc]
        exact List.mem_singleton.2 rfl
      have hkey : c.key = a.key := by
        rw [(hk.calls x hx c hxc ht).key, ← hk.answers a ha hta i hia, hc]
        rfl
      have ho : m.world.isOwned t = true := ht ▸ hm.owned_of_answer h hs
      have hhome := hma.homes a ha i hia
      rw [hta, ← hkey] at hhome
      have hfound := hm.registered.live?_of_homes ho hl hhome
      rcases Step.answer_cases hs with ⟨hr, -⟩ | ⟨d, y, rejected, w₁, j, rfl, hf, -, hd, -⟩
      · have hr : some o.canonical = m.world.live? c.table c.key := hr
        rw [ht, hfound] at hr
        exact Option.some.inj hr
      · obtain ⟨rfl, -⟩ := Answer.interned.inj hd
        rw [ht, hfound] at hf
        cases hf

theorem keyed_empty (f : Normalizer) (t : TableId) : Keyed f t {} :=
  ⟨fun _ hx => absurd hx (Multiset.notMem_zero _), nofun, nofun, nofun⟩

theorem idempotent_empty (t : TableId) : Idempotent t {} := by
  intro later c o earlier h
  cases later <;> cases h

/-- When every call on a table begins with one normalizer, its keys are those of the texts. -/
theorem keyed_of_run {steps : List Step} (hf : ∀ g a, .begin t g a ∈ steps → g = f)
    (h : run steps {} = some m) : m.Keyed f t ∧ m.Idempotent t := by
  have hp : (m.Sound ∧ m.Answered) ∧ m.Keyed f t ∧ m.Idempotent t := by
    refine run_induction (P := fun x => (x.Sound ∧ x.Answered) ∧ x.Keyed f t ∧ x.Idempotent t) ?_
      ⟨⟨sound_empty, answered_empty⟩, keyed_empty f t, idempotent_empty t⟩ h
    rintro s hs x x' ⟨⟨hx, hxa⟩, hxk, hxi⟩ h
    have hg : ∀ g a, s = .begin t g a → g = f := fun g a hsg => hf g a (hsg ▸ hs)
    exact ⟨⟨hx.step h, hxa.step hx h⟩, hxk.step hx hxa h hg, hxi.step hx hxa h hxk⟩
  exact hp.2

end Machine

/-- The instances that an interner answers are told apart by the keys of their texts, through every
run of intern calls, look-ups, clones, releases and reclamations. -/
theorem Interner.identity_iff_key (n : Interner) {t : TableId} (hn : n.strategy = .table t)
    {steps : List Step} {m : Machine} (hf : ∀ g a, .begin t g a ∈ steps → g = n.normalizer)
    (h : Machine.run steps {} = some m) :
    (∀ c o, .interned c o ∈ m.answers → n.strategy = .table c.table →
      n.normalizer.key (m.world.text o.canonical) =
        n.normalizer.key (c.argument.value m.world) ∧
      (n.normalizer = .verbatim → m.world.text o.canonical = c.argument.value m.world)) ∧
    (∀ value i, .lookedUp t (n.normalizer.key value) (some i) ∈ m.answers →
      n.normalizer.key (m.world.text i) = n.normalizer.key value ∧
      (n.normalizer = .verbatim → m.world.text i = value)) ∧
    (∀ a ∈ m.answers, ∀ b ∈ m.answers, n.strategy = .table a.table → n.strategy = .table b.table →
      ∀ i ∈ a.instance?, ∀ j ∈ b.instance?, m.world.isLive i = true → m.world.isLive j = true →
        (i = j ↔ n.normalizer.key (m.world.text i) = n.normalizer.key (m.world.text j))) ∧
    (∀ later c o earlier, m.answers = later ++ .interned c o :: earlier →
      n.strategy = .table c.table → ∀ i, c.argument = .handle i →
        (∃ a ∈ earlier, n.strategy = .table a.table ∧ i ∈ a.instance?) → o.canonical = i) := by
  have hm := Machine.sound_of_run h
  have hma := Machine.answered_of_run h
  obtain ⟨hk, hi⟩ := Machine.keyed_of_run hf h
  have htable : ∀ {u}, n.strategy = .table u → u = t := fun hu => by
    rw [hn] at hu
    exact (Strategy.table.inj hu).symm
  have hverbatim : ∀ {x y : String}, n.normalizer.key x = n.normalizer.key y →
      n.normalizer = .verbatim → x = y := fun hxy hv => by
    rw [hv] at hxy
    exact hxy
  refine ⟨fun c o ha hc => ?_, fun value i ha => ?_,
    fun a ha b hb hta htb i hia j hjb hli hlj => ?_, fun later c o earlier heq hc i harg hret => ?_⟩
  · have hkey : n.normalizer.key (m.world.text o.canonical) =
        n.normalizer.key (c.argument.value m.world) :=
      (hk.answers _ ha (htable hc) _ rfl).trans (hk.asked c o ha (htable hc)).key
    exact ⟨hkey, hverbatim hkey⟩
  · have hkey : n.normalizer.key (m.world.text i) = n.normalizer.key value :=
      hk.answers _ ha rfl i rfl
    exact ⟨hkey, hverbatim hkey⟩
  · have hki := hk.answers a ha (htable hta) i hia
    have hkj := hk.answers b hb (htable htb) j hjb
    refine ⟨fun hij => hij ▸ rfl, fun hkey => ?_⟩
    refine hma.agree hm ha hb ((htable hta).trans (htable htb).symm) ?_ hia hjb hli hlj
    rw [← hki, ← hkj, hkey]
  · obtain ⟨a, ha, hta, hia⟩ := hret
    exact hi later c o earlier heq (htable hc) i harg ⟨a, ha, htable hta, hia⟩

/-- Two calls whose texts differ in case answer one instance. -/
theorem Interner.identity_iff_key_folded :
    let n : Interner := ⟨.table 0, .asciiCaseFold⟩
    ∃ m, Machine.run foldedCalls {} = some m ∧ m.answers.map Answer.instance? = [some 0, some 0] ∧
      ∀ a ∈ m.answers, ∀ b ∈ m.answers,
        n.strategy = .table a.table → n.strategy = .table b.table →
          ∀ i ∈ a.instance?, ∀ j ∈ b.instance?, m.world.isLive i = true → m.world.isLive j = true →
            (i = j ↔ n.normalizer.key (m.world.text i) = n.normalizer.key (m.world.text j)) := by
  intro n
  let m := (Machine.run foldedCalls {}).get (by decide +kernel)
  have h : Machine.run foldedCalls {} = some m := (Option.some_get _).symm
  have hf : ∀ g a, .begin 0 g a ∈ foldedCalls → g = n.normalizer := by
    intro g a hg
    simp only [foldedCalls, List.mem_cons, reduceCtorEq, Step.begin.injEq, true_and,
      List.not_mem_nil, or_false, false_or] at hg
    rcases hg with ⟨rfl, -⟩ | ⟨rfl, -⟩
    · rfl
    · rfl
  exact ⟨m, h, by decide +kernel, (n.identity_iff_key rfl hf h).2.2.1⟩

end Interning
