import Interning.Proofs.Machine.Answers
import Mathlib.Data.Multiset.Count

/-!
# What was installed

A call that stores an instance makes a reclamation due, which comes when the instance is gone.  What
is due for the calls answered so far, what is registered, the entries of a table and the
reclamations past their lock determine each other.

    every registered instance was stored by one call                         (Installed.due, .once)
    entries of t + stale calls on t + reclamations that took an entry of t
      = instances stored in t                                                (Installed.size)
    a reclamation is due for a call that was counted                         (Valid.reclamations_le)
    every run from the empty machine ends so                                 (valid_of_run)
-/

namespace Interning

/-! ## Algorithm -/

/-- The reclamation that is due for what a call stored. -/
def Call.due (c : Call) : Outcome → Option Reclamation
  | .hit _ => none
  | .stored i _ _ => some ⟨c.table, c.key, i⟩

/-- Whether a call took over the entry of an instance that was gone. -/
def Outcome.isStale : Outcome → Bool
  | .hit _ => false
  | .stored _ stale _ => stale

/-- The reclamations that are due for calls. -/
def dues (calls : Multiset (Call × Outcome)) : Multiset Reclamation :=
  calls.filterMap fun p => p.1.due p.2

/-- The number of calls on a table that took over an entry. -/
def staleCalls (t : TableId) (calls : Multiset (Call × Outcome)) : Nat :=
  calls.countP fun p => p.1.table = t ∧ p.2.isStale = true

/-- The number of reclamations that took away an entry of a table. -/
def removals (t : TableId) (spent : Multiset (Reclamation × Bool)) : Nat :=
  spent.countP fun p => p.1.table = t ∧ p.2 = true

/-- What was stored is registered, is in the table, was taken over or was taken away. -/
structure Machine.Installed (m : Machine) : Prop where
  calls : (m.interned : Multiset (Call × Outcome)) = m.entered + (m.recorded : Multiset _)
  due : ∀ i t k, m.world.registration i = some ⟨t, k⟩ → ⟨t, k, i⟩ ∈ dues m.interned
  /-- No instance is stored twice in reclaiming tables. -/
  once : (((dues m.interned).filter fun r =>
    (m.world.tableAt r.table).storage = .reclaiming).map Reclamation.gone).Nodup
  /-- The entries of a table, unless it lost them all when it went. -/
  size : ∀ t, ((m.world.tableAt t).storage = .retaining → m.world.isOwned t = false →
      m.world.tables.size ≤ t) →
    m.world.size t + staleCalls t m.interned + removals t m.spent =
      (dues m.interned).countP fun r => r.table = t

/-- Everything about a machine is in order. -/
structure Machine.Valid (m : Machine) : Prop where
  sound : m.Sound
  answered : m.Answered
  installed : m.Installed

/-! ## Lemmas -/

@[simp]
theorem dues_add (x y : Multiset (Call × Outcome)) : dues (x + y) = dues x + dues y :=
  Multiset.filterMap_add _ x y

@[simp]
theorem staleCalls_add (t : TableId) (x y : Multiset (Call × Outcome)) :
    staleCalls t (x + y) = staleCalls t x + staleCalls t y :=
  Multiset.countP_add _ x y

@[simp]
theorem removals_add (t : TableId) (x y : Multiset (Reclamation × Bool)) :
    removals t (x + y) = removals t x + removals t y :=
  Multiset.countP_add _ x y

theorem Step.mem_interns {s : Step} {w : World} {c : Call} {o : Outcome}
    (h : (c, o) ∈ s.interns w) : (s.effect w).answer = some (.interned c o) := by
  obtain ⟨a, ha, hc⟩ := List.mem_filterMap.1 h
  rw [Option.mem_toList] at ha
  cases a with
  | lookedUp => cases hc
  | interned c' o' =>
    obtain ⟨rfl, rfl⟩ := Prod.mk.inj (Option.some.inj hc)
    exact ha

/-- The calls that a step answers with something stored: none, or the one of a last look that found
nothing. -/
theorem Step.dues_interns (s : Step) (w : World) :
    (dues (s.interns w) = 0 ∧ (∀ t, staleCalls t (s.interns w) = 0) ∧
      ∀ c, s = .enter c → w.live? c.table c.key ≠ none) ∨
    ∃ c x rejected w₁ j, s = .enter c ∧ w.live? c.table c.key = none ∧
      c.Provides w x rejected w₁ ∧
      s.interns w = [(c, .stored x ((w.entries c.table).contains c.key) rejected)] ∧
      (s.effect w).world = (w₁.install c.table c.key x).withJournal j := by
  cases ha : (s.effect w).answer with
  | none =>
    refine .inl ⟨by rw [interns, ha]; rfl, fun t => by rw [interns, ha]; rfl, ?_⟩
    rintro c rfl
    cases ha
  | some a =>
    rcases answer_cases ha with ⟨hl, hh⟩ | ⟨c, x, rejected, w₁, j, rfl, hf, hp, rfl, he⟩
    · refine .inl ?_
      cases a with
      | lookedUp =>
        refine ⟨by rw [interns, ha]; rfl, fun t => by rw [interns, ha]; rfl, ?_⟩
        rintro c rfl
        cases ha
      | interned c o =>
        have hi : s.interns w = [(c, .hit o.canonical)] := by
          rw [interns, ha, ← hh c o rfl]
          rfl
        rw [hi]
        refine ⟨rfl, fun t => ?_, ?_⟩
        · rw [staleCalls, Multiset.coe_countP, List.countP_singleton]
          simp [Outcome.isStale]
        · rintro d rfl hf
          obtain ⟨rfl, -⟩ := Answer.interned.inj (Option.some.inj ha)
          rw [show w.live? d.table d.key = some o.canonical from hl.symm] at hf
          cases hf
    · exact .inr ⟨c, x, rejected, w₁, j, rfl, hf, hp, by rw [interns, ha]; rfl, he⟩

namespace Machine

variable {m m' : Machine} {s : Step}

theorem answer_of_mem_dues {r : Reclamation} (h : r ∈ dues m.interned) :
    ∃ c o, .interned c o ∈ m.answers ∧ c.due o = some r := by
  obtain ⟨⟨c, o⟩, hco, hr⟩ := (Multiset.mem_filterMap _ _).1 h
  obtain ⟨a, ha, hc⟩ := List.mem_filterMap.1 (Multiset.mem_coe.1 hco)
  cases a with
  | lookedUp => cases hc
  | interned c' o' =>
    obtain ⟨rfl, rfl⟩ := Prod.mk.inj (Option.some.inj hc)
    exact ⟨_, _, ha, hr⟩

/-- What a call stored in a table belongs there. -/
theorem Answered.homes_of_due (ha : m.Answered) {r : Reclamation} (h : r ∈ dues m.interned) :
    r.table < m.world.tables.size ∧ m.world.Homes r.table r.key r.gone := by
  obtain ⟨c, o, hco, hr⟩ := answer_of_mem_dues h
  cases o with
  | hit => cases hr
  | stored i stale rejected =>
    obtain rfl := Option.some.inj hr
    exact ⟨ha.table _ hco, ha.homes _ hco i rfl⟩

theorem Answered.registration_of_due (ha : m.Answered) {r : Reclamation} (h : r ∈ dues m.interned)
    (hs : (m.world.tableAt r.table).storage = .reclaiming) :
    m.world.registration r.gone = some ⟨r.table, r.key⟩ := by
  have hh := (ha.homes_of_due h).2
  rwa [World.Homes, hs] at hh

/-- A registration was there before, or a call registers what it stores. -/
theorem Sound.registration_origin (hm : m.Sound) (h : m.step s = some m') {i : InstanceId}
    {r : Registration} (hr : m'.world.registration i = some r) :
    m.world.registration i = some r ∨ ⟨r.table, r.key, i⟩ ∈ dues (s.interns m.world) := by
  obtain ⟨rest, hh, -, rfl⟩ := exists_of_step h
  have hr : (s.effect m.world).world.registration i = some r := hr
  have hquiet : m.world.Quiet (s.effect m.world).world → m.world.registration i = some r :=
    fun hq => (hq.registration i).symm.trans hr
  cases s with
  | release j =>
    refine .inl ?_
    rcases Step.effect_release j m.world with ⟨q, k, -, -, -, he⟩ | ⟨-, k, he⟩
    · rw [he] at hr
      exact (World.registration_loseHandle j i).symm.trans hr
    · rw [he] at hr
      exact (World.registration_loseHandle j i).symm.trans hr
  | detach q =>
    refine .inl ?_
    rw [World.registration, World.instanceAt, Step.instances_detach] at hr
    exact hr
  | enter c =>
    have hl : ∀ i ∈ c.argument.leftover, m.world.isLive i = true := fun i hi =>
      hm.accounted.isLive (mem_of_needs hh (.missed c) List.mem_cons_self) (Option.mem_toList.2 hi)
    cases hf : m.world.live? c.table c.key with
    | some x =>
      obtain ⟨j, he⟩ := Step.effect_enter_of_some hf
      refine .inl (hquiet ?_)
      rw [he]
      exact (World.quiet_addHandle (World.isLive_of_live? hf)).withJournal j
    | none =>
      obtain ⟨x, rejected, w₁, j, hp, he⟩ := Step.effect_enter_of_none hf
      cases hs : (w₁.tableAt c.table).storage with
      | retaining =>
        refine .inl (hquiet ?_)
        rw [he]
        exact (hp.quiet.trans (World.quiet_install hs (hp.isLive_self hl))).withJournal j
      | reclaiming =>
        rw [he] at hr
        have hreg := World.registration_install c.key hs (lt_size_provides hl hp) i
        have hr : (w₁.install c.table c.key x).registration i = some r := hr
        rw [hreg] at hr
        split at hr
        · next hi =>
          obtain rfl := Option.some.inj hr
          refine .inr ?_
          rw [Step.interns, he, hi]
          exact Multiset.mem_coe.2 List.mem_cons_self
        · exact .inl ((hp.registration i).symm.trans hr)
  | _ => exact .inl (hquiet (hm.accounted.quiet (mem_of_needs hh) (by simp) (by simp) (by simp)))

/-! ### How many entries -/

/-- The look of a reclamation takes away as many entries as it says. -/
theorem size_detach (w : World) (r : Reclamation) (t : TableId) :
    ((Step.detach r).effect w).world.size t +
      removals t ((Step.detach r).detaches w).toList = w.size t := by
  by_cases h : (w.entries r.table).get? r.key = some r.gone
  · obtain ⟨j, he⟩ := Step.effect_detach_of_own h
    rw [he, Step.detaches_detach, decide_eq_true h]
    show (w.modifyEntries r.table fun m => m.erase r.key).size t + removals t [(r, true)] = _
    rw [World.size, World.entries_modifyEntries (World.lt_size_of_entry h), removals,
      Multiset.coe_countP, List.countP_singleton]
    by_cases ht : t = r.table
    · subst ht
      simp only [if_pos, and_self, decide_true]
      exact KeyMap.size_erase h
    · simp only [if_neg ht, Ne.symm ht, false_and, decide_false]
      rfl
  · obtain ⟨j, he⟩ := Step.effect_detach_of_other h
    rw [he, Step.detaches_detach, decide_eq_false h]
    show w.size t + removals t [(r, false)] = _
    rw [removals, Multiset.coe_countP, List.countP_singleton]
    simp

/-- What a call stores is one entry more, or the call is stale. -/
theorem size_install {w : World} {t : TableId} (ht : t < w.tables.size) (key : String)
    (x : InstanceId) (u : TableId) :
    (w.install t key x).size u + (if u = t ∧ (w.entries t).contains key = true then 1 else 0) =
      w.size u + if u = t then 1 else 0 := by
  rw [World.size, World.entries, World.tableAt_install ht]
  by_cases hu : u = t
  · subst hu
    simp only [if_true, true_and]
    rw [KeyMap.size_insert, World.size]
    split <;> omega
  · simp only [hu, false_and, if_false]
    rfl

/-- A call stores one entry more, or it is stale. -/
theorem size_enter {w w₁ : World} {c : Call} {x : InstanceId} {rejected : Option InstanceId}
    (hp : c.Provides w x rejected w₁) (hc : c.table < w.tables.size) (t : TableId) :
    let o : Outcome := .stored x ((w.entries c.table).contains c.key) rejected
    (w₁.install c.table c.key x).size t + staleCalls t ↑[(c, o)] =
      w.size t + (dues ↑[(c, o)]).countP fun r => r.table = t := by
  intro o
  have hsize := size_install (w := w₁) (t := c.table) (by rwa [hp.tables]) c.key x t
  have hw₁ : w₁.size t = w.size t := by rw [World.size, World.entries, hp.tableAt]; rfl
  have hk : w₁.entries c.table = w.entries c.table := by rw [World.entries, hp.tableAt]; rfl
  rw [hw₁, hk] at hsize
  have hstale : staleCalls t ↑[(c, o)] =
      if t = c.table ∧ (w.entries c.table).contains c.key = true then 1 else 0 := by
    rw [staleCalls, Multiset.coe_countP, List.countP_singleton]
    simp only [o, Outcome.isStale, eq_comm (a := t)]
    exact if_congr decide_eq_true_iff rfl rfl
  have hdue : (dues ↑[(c, o)]).countP (fun r => r.table = t) = if t = c.table then 1 else 0 := by
    show (↑[(⟨c.table, c.key, x⟩ : Reclamation)] : Multiset Reclamation).countP _ = _
    rw [Multiset.coe_countP, List.countP_singleton]
    simp [eq_comm (a := t)]
  rw [hstale, hdue]
  exact hsize

/-- Where a table keeps its entries, giving up an owner leaves them. -/
theorem size_disown {w : World} {t : TableId} (ho : w.isOwned t = true)
    (ht : (((Step.disown t).effect w).world.tableAt t).storage = .retaining →
      ((Step.disown t).effect w).world.isOwned t = false →
        ((Step.disown t).effect w).world.tables.size ≤ t) :
    ((Step.disown t).effect w).world.size t = w.size t := by
  rw [Step.effect_disown] at ht ⊢
  split
  · next hc =>
    -- The last owner of a retaining table goes, so the entries are not kept.
    rw [if_pos hc] at ht
    have hsize : w.tables.size ≤ t := by
      refine Nat.le_trans (Nat.le_of_eq ?_) (ht ?_ ?_)
      · simp [World.modifyEntries, World.removeOwner]
      · rw [World.storage_modifyEntries, World.storage_removeOwner, hc.2]
      · rw [← Bool.not_eq_true, World.isOwned_iff, World.owners_modifyEntries,
          World.owners_removeOwner, if_pos rfl]
        omega
    exact absurd (World.lt_size_of_isOwned ho) (Nat.not_lt.2 hsize)
  · exact congrArg KeyMap.size (World.entries_removeOwner t t)

/-- Where a table keeps its entries, a step changes them by what it stores and takes away. -/
theorem Sound.size_step (hm : m.Sound) (h : m.step s = some m') {t : TableId}
    (ht : (m'.world.tableAt t).storage = .retaining → m'.world.isOwned t = false →
      m'.world.tables.size ≤ t) :
    m'.world.size t + staleCalls t (s.interns m.world) +
        removals t (s.detaches m.world).toList =
      m.world.size t + (dues (s.interns m.world)).countP fun r => r.table = t := by
  obtain ⟨rest, hh, -, rfl⟩ := exists_of_step h
  have hw : (m.next s rest).world = (s.effect m.world).world := rfl
  rw [hw] at ht ⊢
  rcases Step.dues_interns s m.world with ⟨hd, hs, hmiss⟩ |
    ⟨c, x, rejected, w₁, j, rfl, hf, hp, hi, he⟩
  · rw [hd, hs, Multiset.countP_zero]
    by_cases hr : ∃ r, s = .detach r
    · obtain ⟨r, rfl⟩ := hr
      exact size_detach m.world r t
    have hz : s.detaches m.world = none := by
      cases s with
      | detach r => exact absurd ⟨r, rfl⟩ hr
      | _ => rfl
    rw [hz]
    show (s.effect m.world).world.size t = m.world.size t
    by_cases hdis : s = .disown t
    · subst hdis
      exact size_disown (hm.accounted.isOwned
        (mem_of_needs hh (.owner t) List.mem_cons_self) List.mem_cons_self) ht
    · refine congrArg KeyMap.size (Step.entries_effect hdis (fun c hc hct => ?_) ?_)
      · rw [← hct]
        exact hmiss c hc
      · exact fun r hr' => absurd ⟨r, hr'⟩ hr
  · rw [hi, he]
    exact size_enter hp (World.lt_size_of_isOwned (hm.accounted.isOwned_call
      (mem_of_needs hh (.missed c) List.mem_cons_self) rfl)) t

/-- What a step stores was not stored before: neither by another call nor by this one twice. -/
theorem Installed.once_step (hm : m.Sound) (ha : m.Answered) (h : m.step s = some m')
    (hi : m.Installed) :
    (((dues m'.interned).filter fun r => (m'.world.tableAt r.table).storage = .reclaiming).map
      Reclamation.gone).Nodup := by
  have hx := hm.accounted.extends_step h
  have hold : (dues m.interned).filter (fun r =>
        (m'.world.tableAt r.table).storage = .reclaiming) =
      (dues m.interned).filter fun r => (m.world.tableAt r.table).storage = .reclaiming := by
    refine Multiset.filter_congr fun r hr => ?_
    rw [hx.storage r.table (ha.homes_of_due hr).1]
  rw [interned_step h, ← Multiset.coe_add, dues_add, Multiset.filter_add, Multiset.map_add,
    Multiset.nodup_add, hold]
  rcases Step.dues_interns s m.world with ⟨hd, -, -⟩ | ⟨c, x, rejected, w₁, j, -, -, hp, hint, -⟩
  · rw [hd]
    refine ⟨Multiset.nodup_zero, hi.once, ?_⟩
    rw [Multiset.disjoint_left]
    intro i hnew
    exact absurd hnew (Multiset.notMem_zero i)
  have hdue : ∀ r ∈ dues (s.interns m.world), r = ⟨c.table, c.key, x⟩ := by
    intro r hr
    rw [hint] at hr
    exact Multiset.mem_singleton.1 hr
  refine ⟨?_, hi.once, ?_⟩
  · rw [hint]
    refine Multiset.Nodup.map_on ?_ ((Multiset.nodup_singleton _).filter _)
    intro r₁ h₁ r₂ h₂ _
    rw [Multiset.mem_singleton.1 (Multiset.mem_of_mem_filter h₁),
      Multiset.mem_singleton.1 (Multiset.mem_of_mem_filter h₂)]
  · -- What is stored now was not registered, and what was stored before was.
    rw [Multiset.disjoint_left]
    intro i hnew hold
    obtain ⟨r, hr, rfl⟩ := Multiset.mem_map.1 hnew
    obtain ⟨hr, hs⟩ := Multiset.mem_filter.1 hr
    obtain ⟨q, hq, hqi⟩ := Multiset.mem_map.1 hold
    obtain ⟨hq, hqs⟩ := Multiset.mem_filter.1 hq
    obtain rfl := hdue r hr
    have hanswer : (s.effect m.world).answer = some (.interned c _) :=
      Step.mem_interns (hint ▸ List.mem_cons_self)
    have hlt := World.lt_size_of_isOwned (hm.owned_of_answer h hanswer)
    have hn := hp.registration_self ((hx.storage c.table hlt).symm.trans hs)
    rw [hp.registration] at hn
    have hqr := ha.registration_of_due hq hqs
    rw [hqi] at hqr
    cases hn.symm.trans hqr

theorem Installed.step (hm : m.Sound) (ha : m.Answered) (h : m.step s = some m')
    (hi : m.Installed) : m'.Installed := by
  have hx := hm.accounted.extends_step h
  have hint : (m'.interned : Multiset (Call × Outcome)) =
      ↑(s.interns m.world) + ↑m.interned := by
    rw [interned_step h]
    rfl
  constructor
  case calls => exact calls_step h hi.calls
  case due =>
    intro i t k hr
    rw [hint, dues_add, Multiset.mem_add]
    rcases hm.registration_origin h hr with hr | hr
    · exact .inr (hi.due i t k hr)
    · exact .inl hr
  case once => exact hi.once_step hm ha h
  case size =>
    intro t ht
    have hkeep : (m.world.tableAt t).storage = .retaining → m.world.isOwned t = false →
        m.world.tables.size ≤ t := by
      intro hs ho
      rcases Nat.lt_or_ge t m.world.tables.size with hlt | hge
      · have := ht (by rw [hx.storage t hlt]; exact hs) (hx.disowned t hlt ho)
        exact absurd hlt (Nat.not_lt.2 (Nat.le_trans hx.tables this))
      · exact hge
    have h₁ := hi.size t hkeep
    have h₂ := hm.size_step h ht
    rw [hint, spent_step h, dues_add, staleCalls_add, removals_add, Multiset.countP_add]
    omega

theorem installed_empty : Installed {} :=
  ⟨rfl, fun _ _ _ h => (by cases h), Multiset.nodup_zero, fun _ _ => rfl⟩

theorem Valid.step (hm : m.Valid) (h : m.step s = some m') : m'.Valid :=
  ⟨hm.sound.step h, hm.answered.step hm.sound h, hm.installed.step hm.sound hm.answered h⟩

theorem valid_empty : Valid {} := ⟨sound_empty, answered_empty, installed_empty⟩

theorem Valid.of_run (hm : m.Valid) {steps : List Step} (h : run steps m = some m') : m'.Valid :=
  run_induction (fun _ _ _ _ hm h => hm.step h) hm h

/-- Every run from the empty machine ends with everything in order. -/
theorem valid_of_run {steps : List Step} (h : run steps {} = some m) : m.Valid :=
  valid_empty.of_run h

/-- A reclamation is due for a call that was counted: the handle of a call still to be counted keeps
its instance live. -/
theorem Valid.reclamations_le (hm : m.Valid) :
    m.reclamations ≤ dues (m.recorded : Multiset (Call × Outcome)) := by
  have hnodup := Multiset.Nodup.of_map _ hm.sound.registered.once
  refine (Multiset.le_iff_subset hnodup).2 fun r hr => ?_
  obtain ⟨hreg, hgone⟩ := hm.sound.registered.gone r hr
  have hdue := hm.installed.due r.gone r.table r.key hreg
  rw [hm.installed.calls, dues_add] at hdue
  rcases Multiset.mem_add.1 hdue with hdue | hdue
  · obtain ⟨⟨c, o⟩, hco, hr⟩ := (Multiset.mem_filterMap _ _).1 hdue
    obtain ⟨x, hx, hxe⟩ := (Multiset.mem_filterMap _ _).1 hco
    cases x with
    | entered c' o' =>
      obtain ⟨rfl, rfl⟩ := Prod.mk.inj (Option.some.inj hxe)
      cases o' with
      | hit => cases hr
      | stored i stale rejected =>
        have hri := (Reclamation.mk.inj (Option.some.inj hr)).2.2
        have hl := hm.sound.accounted.isLive hx (i := r.gone)
          (by rw [hri]; exact List.mem_cons_self)
        rw [hgone] at hl
        cases hl
    | _ => cases hxe
  · exact hdue

end Machine

end Interning
