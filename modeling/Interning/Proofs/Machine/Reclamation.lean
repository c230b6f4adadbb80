import Interning.Proofs.Machine.Answers
import Mathlib.Data.Multiset.Count

/-!
# Late reclamations do no harm

A reclamation may come to its table at any time after the last handle was released, when the entry
has been replaced once or many times.  It takes away the entry of its own instance or none, the
instance is never answered again, and what the table counts too much is exactly what is still owed.

    live and registered → stored; a reclamation takes no entry but its own
    gone once → gone for good, and never answered again
    reclamations of a registered instance = if it is live then 0 else 1      (Sound.count_gone)
    w.size t = w.liveSize t + own entries that are owed                      (Sound.size_eq)
    all of it for every run                                  (Machine.late_reclamation_harmless)
-/

namespace Interning

/-! ## Algorithm -/

namespace Machine

/-- The reclamations owed to a table whose entry is still there. -/
def owedEntries (m : Machine) (t : TableId) : Multiset Reclamation :=
  m.owed.filter fun r => r.table = t ∧ (m.world.entries t).get? r.key = some r.gone

/-- No reclamation of a table does harm, however late it comes. -/
structure Unharmed (m : Machine) (t : TableId) : Prop where
  /-- A live instance that is registered under a key is the one stored there. -/
  stored : ∀ k i, m.world.registration i = some ⟨t, k⟩ → m.world.isLive i = true →
    (m.world.entries t).get? k = some i
  /-- A reclamation takes no entry of another instance than its own. -/
  kept : ∀ r m', m.step (.detach r) = some m' ∨ (∃ b, m.step (.settle r b) = some m') → ∀ k i,
    (m.world.entries t).get? k = some i → i ≠ r.gone → (m'.world.entries t).get? k = some i
  /-- What is gone stays gone and is never answered again. -/
  unanswered : ∀ later m', run later m = some m' → ∀ i < m.world.instances.size,
    m.world.isLive i = false → m'.world.isLive i = false ∧
      ∃ new, m'.answers = new ++ m.answers ∧ ∀ a ∈ new, a.instance? ≠ some i
  /-- There is one reclamation for each registered instance, due only when it is gone. -/
  once : ∀ k i, m.world.registration i = some ⟨t, k⟩ →
    ((m.reclamations.map Reclamation.gone).count i = if m.world.isLive i = true then 0 else 1) ∧
      ∀ r ∈ m.reclamations, r.gone = i → r = ⟨t, k, i⟩
  /-- The entries that are not live are those whose reclamation is still owed. -/
  size : m.world.size t = m.world.liveSize t + (m.owedEntries t).card
  /-- When nothing is owed, every entry is live. -/
  settled : (∀ r ∈ m.owed, r.table ≠ t) →
    (∀ k i, (m.world.entries t).get? k = some i → m.world.isLive i = true) ∧
      m.world.size t = m.world.liveSize t

/-- A value is interned, released, and interned again before its reclamation comes. -/
def churn : List Step :=
  let c : Call := ⟨0, "a", .text "a"⟩
  [.newTable .reclaiming 0 true, .begin 0 .verbatim (.text "a"), .check c, .enter c,
    .record c (.stored 0 false none), .release 0, .begin 0 .verbatim (.text "a"), .check c,
    .enter c, .record c (.stored 1 true none)]

/-! ## Lemmas -/

variable {m m' : Machine} {t : TableId}

/-- Each registered instance is reclaimed once, and not before it is gone. -/
theorem Sound.count_gone (hm : m.Sound) (ho : m.world.isOwned t = true) {i : InstanceId}
    {k : String} (hr : m.world.registration i = some ⟨t, k⟩) :
    (m.reclamations.map Reclamation.gone).count i = if m.world.isLive i = true then 0 else 1 := by
  split
  · next hl =>
    rw [Multiset.count_eq_zero]
    intro hi
    obtain ⟨r, hrm, rfl⟩ := Multiset.mem_map.1 hi
    rw [(hm.registered.gone r hrm).2] at hl
    cases hl
  · next hl =>
    refine Multiset.count_eq_one_of_mem hm.registered.once ?_
    exact Multiset.mem_map.2
      ⟨_, hm.registered.reclaimed i t k ho hr (Bool.eq_false_iff.2 hl), rfl⟩

theorem Registered.nodup_owed (hm : m.Registered) : m.owed.Nodup :=
  Multiset.nodup_of_le (Multiset.le_add_right _ _) (Multiset.Nodup.of_map _ hm.once)

/-- What is owed to a table whose entry is still there are its entries that are gone. -/
theorem Sound.owedEntries_eq (hm : m.Sound) (ho : m.world.isOwned t = true)
    (hs : (m.world.tableAt t).storage = .reclaiming) :
    m.owedEntries t = ↑(((m.world.entries t).toList.filter fun e => !m.world.isLive e.2).map
      fun e => (⟨t, e.1, e.2⟩ : Reclamation)) := by
  have hinj : Function.Injective fun e : String × InstanceId => (⟨t, e.1, e.2⟩ : Reclamation) := by
    rintro ⟨k, i⟩ ⟨k', i'⟩ h
    obtain ⟨-, rfl, rfl⟩ := Reclamation.mk.inj h
    rfl
  have hl : (((m.world.entries t).toList.filter fun e => !m.world.isLive e.2).map
      fun e => (⟨t, e.1, e.2⟩ : Reclamation)).Nodup := by
    refine List.Nodup.map hinj (List.Nodup.filter _ ?_)
    exact List.Nodup.of_map Prod.fst (m.world.entries t).keys_nodup
  refine (Multiset.Nodup.ext (hm.registered.nodup_owed.filter _) (Multiset.coe_nodup.2 hl)).2 ?_
  intro r
  rw [Multiset.mem_filter, Multiset.mem_coe, List.mem_map]
  constructor
  · rintro ⟨hr, rfl, he⟩
    have hg := (hm.registered.gone r (Multiset.mem_add.2 (.inl hr))).2
    refine ⟨(r.key, r.gone), List.mem_filter.2 ⟨KeyMap.get?_eq_some_iff.1 he, ?_⟩, rfl⟩
    rw [hg]
    rfl
  · rintro ⟨⟨k, i⟩, he, rfl⟩
    obtain ⟨he, hi⟩ := List.mem_filter.1 he
    have he := KeyMap.get?_eq_some_iff.2 he
    refine ⟨hm.registered.pending t k i ho hs he ?_, rfl, he⟩
    simpa using hi

/-- What a table counts beyond its live instances is owed. -/
theorem Sound.size_eq (hm : m.Sound) (ho : m.world.isOwned t = true)
    (hs : (m.world.tableAt t).storage = .reclaiming) :
    m.world.size t = m.world.liveSize t + (m.owedEntries t).card := by
  rw [hm.owedEntries_eq ho hs, Multiset.coe_card, List.length_map, World.size, World.liveSize,
    KeyMap.size, KeyMap.values, List.countP_map, ← List.countP_eq_length_filter]
  have hl := List.length_eq_countP_add_countP (l := (m.world.entries t).toList)
    (m.world.isLive ∘ Prod.snd)
  simpa using hl

/-- When nothing is owed, what is stored is live. -/
theorem Sound.entries_live (hm : m.Sound) (ho : m.world.isOwned t = true)
    (hs : (m.world.tableAt t).storage = .reclaiming) (hn : ∀ r ∈ m.owed, r.table ≠ t) {k : String}
    {i : InstanceId} (he : (m.world.entries t).get? k = some i) : m.world.isLive i = true := by
  by_contra hl
  exact hn _ (hm.registered.pending t k i ho hs he (Bool.eq_false_iff.2 hl)) rfl

/-- An instance that is gone is not answered. -/
theorem Sound.not_answered (hm : m.Sound) {steps : List Step} (h : run steps m = some m')
    {i : InstanceId} (hi : i < m.world.instances.size) (hl : m.world.isLive i = false) :
    ∃ new, m'.answers = new ++ m.answers ∧ ∀ a ∈ new, a.instance? ≠ some i := by
  induction steps generalizing m with
  | nil =>
    obtain rfl := Option.some.inj h
    exact ⟨[], rfl, nofun⟩
  | cons s steps ih =>
    obtain ⟨m₁, h₁, h⟩ := Option.bind_eq_some_iff.1 h
    have hx := hm.accounted.extends_step h₁
    have hl₁ := hx.gone i hi hl
    obtain ⟨new, heq, hnew⟩ := ih (hm.step h₁) h (Nat.lt_of_lt_of_le hi hx.instances) hl₁
    refine ⟨new ++ (s.effect m.world).answer.toList, ?_, ?_⟩
    · rw [heq, answers_step h₁, List.append_assoc]
    · intro a ha hai
      rcases List.mem_append.1 ha with ha | ha
      · exact hnew a ha hai
      · rw [hm.isLive_of_answer h₁ (Option.mem_toList.1 ha) hai] at hl₁
        cases hl₁

/-- In every run, and for every reclaiming table as long as it is owned, reclamations come late
without harm. -/
theorem late_reclamation_harmless {steps : List Step} (h : run steps {} = some m)
    (ho : m.world.isOwned t = true) (hs : (m.world.tableAt t).storage = .reclaiming) :
    m.Unharmed t := by
  have hm := sound_of_run h
  refine ⟨fun k i => hm.registered.stored i t k, fun r m' h' k i he hne => ?_,
    fun later m' h' i hi hl => ⟨(hm.extends_run h').gone i hi hl, hm.not_answered h' hi hl⟩,
    fun k i hr => ⟨hm.count_gone ho hr, fun r hmem hi => ?_⟩, hm.size_eq ho hs, fun hn => ⟨?_, ?_⟩⟩
  · rcases h' with h' | ⟨b, h'⟩
    · obtain ⟨rest, -, -, rfl⟩ := exists_of_step h'
      refine (Step.get?_detach m.world r t k i).2 ⟨he, ?_⟩
      rintro rfl
      exact hne rfl
    · obtain ⟨rest, -, -, rfl⟩ := exists_of_step h'
      have hsame : (m.next (.settle r b) rest).world.entries t = m.world.entries t :=
        Step.entries_effect (by simp) (by simp) (by simp)
      rw [hsame]
      exact he
  · subst hi
    obtain ⟨rfl, rfl⟩ :=
      Registration.mk.inj (Option.some.inj ((hm.registered.gone r hmem).1.symm.trans hr))
    rfl
  · exact fun k i he => hm.entries_live ho hs hn he
  · have hz : m.owedEntries t = 0 := by
      refine Multiset.eq_zero_of_forall_notMem fun r hr => ?_
      obtain ⟨hr, ht, -⟩ := Multiset.mem_filter.1 hr
      exact hn r hr ht
    rw [hm.size_eq ho hs, hz, Multiset.card_zero, Nat.add_zero]

/-- The reclamation of the first instance is owed when the second one is stored. -/
theorem late_reclamation_harmless_churn :
    ∃ m, run churn {} = some m ∧ m.owed = {⟨0, "a", 0⟩} ∧ m.Unharmed 0 := by
  let m := (run churn {}).get (by decide +kernel)
  have h : run churn {} = some m := (Option.some_get _).symm
  refine ⟨m, h, ?_, late_reclamation_harmless h ?_ ?_⟩
  · decide +kernel
  · decide +kernel
  · decide +kernel

end Machine

end Interning
