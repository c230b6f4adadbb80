import Interning.Proofs.Machine.Delays

/-!
# Late and prompt side by side

Beside every run goes the prompt one without its delays.  At a piece of a reclamation the prompt run
pauses; at the release of a last handle it does the reclamation at once; at every other step it
takes the same step.

    a piece of a reclamation is a pause                                       (Simulates.pause)
    a last release sweeps what is gone                              (Simulates.release_of_owes)
    beside a step stands a prompt one, or a pause                              (Simulates.step)
    every run has a prompt run beside it                                    (simulates_of_run)
-/

namespace Interning

/-! ## Algorithm -/

/-- The second machine is the first one with its reclamations done. -/
structure Machine.Simulates (σ τ : Machine) : Prop where
  swept : σ.world.Swept σ.Keeps τ.world
  hand : τ.hand = σ.hand.filterMap Token.undelayed?
  answers : τ.answers = σ.answers.map Answer.unstale
  recorded : τ.recorded = σ.recorded.map unstale

/-! ## Lemmas -/

namespace Machine

variable {σ σ' τ : Machine} {s s' : Step} {t : TableId}

namespace Simulates

theorem owner_mem (h : σ.Simulates τ) : .owner t ∈ τ.hand ↔ .owner t ∈ σ.hand := by
  rw [h.hand, owner_mem_undelayed]

theorem needs_undelayed (hu : s.undelayed? = some s') :
    s.needs.filterMap Token.undelayed? = s'.needs := by
  cases s with
  | record c o =>
    obtain rfl := Option.some.inj hu
    rfl
  | begin t f a =>
    obtain rfl := Option.some.inj hu
    show Token.owner t :: (a.leftover.toList.map Token.handle).filterMap Token.undelayed? = _
    rw [filterMap_undelayed_handles]
    rfl
  | detach | settle => cases hu
  | _ =>
    obtain rfl := Option.some.inj hu
    rfl

theorem recorded_undelayed (hu : s.undelayed? = some s') :
    s'.recorded.toList = s.recorded.toList.map unstale := by
  cases s with
  | detach | settle => cases hu
  | _ =>
    obtain rfl := Option.some.inj hu
    rfl

theorem allowed_undelayed {hand : Multiset Token} (hu : s.undelayed? = some s')
    (ha : s.Allowed hand) : s'.Allowed (hand.filterMap Token.undelayed?) := by
  cases s with
  | disown t =>
    obtain rfl := Option.some.inj hu
    refine ha.imp (fun hc => ?_) fun hc y hy => ?_
    · rw [count_owner_undelayed]
      exact hc
    · obtain ⟨x, hx, hxy⟩ := (Multiset.mem_filterMap _ _).1 hy
      rw [Token.call?_undelayed hxy]
      exact hc x hx
  | detach | settle => cases hu
  | _ =>
    obtain rfl := Option.some.inj hu
    trivial

theorem owes_undelayed (hs : ∀ i, s ≠ .release i) (hu : s.undelayed? = some s') (w : World) :
    s'.owes w = none := by
  cases s with
  | release i => exact absurd rfl (hs i)
  | detach | settle => cases hu
  | _ =>
    obtain rfl := Option.some.inj hu
    rfl

/-- A step that is no release and no piece of a reclamation is taken in both. -/
theorem step_of_ne_release (hσ : σ.Sound) (hτ : τ.Sound) (hp : τ.Prompt) (h : σ.Simulates τ)
    (hs : ∀ i, s ≠ .release i) (hu : s.undelayed? = some s') (hstep : σ.step s = some σ') :
    ∃ τ', τ.stepPromptly s' = some τ' ∧ σ'.Simulates τ' := by
  have hkeeps := fun t => Keeps.of_step (t := t) hσ.accounted hstep
  obtain ⟨rest, hh, ha, rfl⟩ := exists_of_step hstep
  have hh' : τ.hand = rest.filterMap Token.undelayed? + ↑s'.needs := by
    rw [h.hand, filterMap_hand Token.undelayed? hh, needs_undelayed hu]
  have ha' : s'.Allowed τ.hand := h.hand ▸ allowed_undelayed hu ha
  have howners : ∀ t, (σ.world.tableAt t).storage = .retaining →
      (τ.world.tableAt t).owners = (σ.world.tableAt t).owners := by
    intro t ht
    rw [hσ.owners_retaining ht, hp.owners hτ, h.hand, count_owner_undelayed]
  have he := hσ.undelayed_effect (mem_of_needs hh) hs hu h.swept (fun _ ht => .inl ht) howners
  refine ⟨τ.next s' (rest.filterMap Token.undelayed?), ?_, he.swept.mono hkeeps, ?_, ?_, ?_⟩
  · rw [stepPromptly, step_eq_some hh' ha', owes_undelayed hs hu]
    rfl
  · rw [filterMap_next, ← he.gains]
    rfl
  · show (s'.effect τ.world).answer.toList ++ τ.answers =
      ((s.effect σ.world).answer.toList ++ σ.answers).map Answer.unstale
    rw [he.answer, h.answers, List.map_append]
    cases (s.effect σ.world).answer <;> rfl
  · show s'.recorded.toList ++ τ.recorded = (s.recorded.toList ++ σ.recorded).map unstale
    rw [recorded_undelayed hu, h.recorded, List.map_append]

/-- At a piece of a reclamation the prompt run pauses. -/
theorem pause (hσ : σ.Sound) (h : σ.Simulates τ) (hu : s.undelayed? = none)
    (hstep : σ.step s = some σ') : σ'.Simulates τ := by
  have hkeeps := fun t => Keeps.of_step (t := t) hσ.accounted hstep
  obtain ⟨rest, hh, -, rfl⟩ := exists_of_step hstep
  cases s with
  | detach r =>
    have hr : r ∈ σ.reclamations :=
      mem_reclamations_of_owed (mem_of_needs hh _ List.mem_cons_self)
    refine ⟨(h.swept.detach (hσ.registered.gone r hr).2).mono hkeeps, ?_, h.answers, h.recorded⟩
    rw [h.hand, filterMap_hand Token.undelayed? hh, filterMap_next]
    rfl
  | settle r removed =>
    refine ⟨(h.swept.settle_left r removed).mono hkeeps, ?_, h.answers, h.recorded⟩
    rw [h.hand, filterMap_hand Token.undelayed? hh, filterMap_next]
    rfl
  | _ => cases hu

/-- In hand stand the same handles and owners. -/
theorem rest_undelayed (h : σ.Simulates τ) {i : InstanceId} {rest rest' : Multiset Token}
    (hh : σ.hand = rest + ↑(Step.release i).needs)
    (hh' : τ.hand = rest' + ↑(Step.release i).needs) :
    rest' = rest.filterMap Token.undelayed? := by
  have he := filterMap_hand Token.undelayed? hh
  rw [← h.hand, hh'] at he
  exact add_right_cancel he

/-- A release that is no last one for the prompt run. -/
theorem release_of_other (hσ : σ.Sound) (hτ : τ.Sound) (h : σ.Simulates τ) {i : InstanceId}
    (hstep : σ.step (.release i) = some σ') {τ₁ : Machine}
    (hstep₁ : τ.step (.release i) = some τ₁)
    (hn : τ.world.handles i = 1 →
      ∀ r, τ.world.registration i = some r → τ.world.isOwned r.table = false)
    {j' : Array Act} (he' : (Step.release i).effect τ.world =
      ⟨(τ.world.loseHandle i).withJournal j', [], none⟩) : σ'.Simulates τ₁ := by
  have hkeeps := fun t => Keeps.of_step (t := t) hσ.accounted hstep
  obtain ⟨rest, hh, -, rfl⟩ := exists_of_step hstep
  obtain ⟨rest₁, hh₁, -, rfl⟩ := exists_of_step hstep₁
  have hi := mem_of_needs hh (.handle i) List.mem_cons_self
  have hpos := World.isLive_iff.1 (hσ.accounted.isLive hi List.mem_cons_self)
  have hswept : (σ.world.loseHandle i).Swept σ.Keeps (τ.world.loseHandle i) := by
    refine h.swept.loseHandle fun t k ht hk => Nat.le_of_not_lt fun hlt => ?_
    have hreg := hσ.registration_of_entry hi hk hlt
    have hlast : τ.world.handles i = 1 := by
      rw [h.swept.handles]
      omega
    have hown := hn hlast ⟨t, k⟩ ((h.swept.registration i).trans hreg)
    rw [hτ.accounted.isOwned (h.owner_mem.2 (ht.owner_mem hk)) List.mem_cons_self] at hown
    cases hown
  rcases Step.effect_release i σ.world with ⟨r, j, -, -, -, he⟩ | ⟨-, j, he⟩
  · refine ⟨?_, ?_, h.answers, h.recorded⟩
    · show ((Step.release i).effect σ.world).world.Swept _ ((Step.release i).effect τ.world).world
      rw [he, he']
      exact ((hswept.addOwner_left r.table).withJournal j j').mono hkeeps
    · rw [filterMap_next, he, ← h.rest_undelayed hh hh₁]
      show rest₁ + ↑((Step.release i).effect τ.world).gains = _
      rw [he']
      rfl
  · refine ⟨?_, ?_, h.answers, h.recorded⟩
    · show ((Step.release i).effect σ.world).world.Swept _ ((Step.release i).effect τ.world).world
      rw [he, he']
      exact (hswept.withJournal j j').mono hkeeps
    · rw [filterMap_next, he, ← h.rest_undelayed hh hh₁]
      show rest₁ + ↑((Step.release i).effect τ.world).gains = _
      rw [he']
      rfl

/-- At the last release in both, the prompt run does the reclamation at once. -/
theorem release_of_owes (hσ : σ.Sound) (hτ : τ.Sound) (hp : τ.Prompt) (h : σ.Simulates τ)
    {i : InstanceId} {r : Registration} (hstep : σ.step (.release i) = some σ') {τ₁ : Machine}
    (hstep₁ : τ.step (.release i) = some τ₁) (hi : τ.world.handles i = 1)
    (hr : τ.world.registration i = some r) (ho : τ.world.isOwned r.table = true)
    {j' : Array Act} (he' : (Step.release i).effect τ.world =
      ⟨((τ.world.loseHandle i).addOwner r.table).withJournal j',
        [.owed ⟨r.table, r.key, i⟩], none⟩) :
    ∃ τ', τ₁.reclaim ⟨r.table, r.key, i⟩ = some τ' ∧ σ'.Simulates τ' := by
  have hkeeps := fun t => Keeps.of_step (t := t) hσ.accounted hstep
  have howes : (Step.release i).owes τ.world = some ⟨r.table, r.key, i⟩ := by
    have hg := Step.owed_gains (.release i) τ.world
    rw [he'] at hg
    exact (Option.toList_eq_singleton_iff.1 hg.symm)
  have hown := Prompt.own_of_owes hτ hstep₁ howes
  have howner : .owner r.table ∈ σ.hand := by
    rw [← h.owner_mem, ← Multiset.count_pos, ← hp.owners hτ]
    exact World.isOwned_iff.1 ho
  rw [h.swept.handles] at hi
  rw [h.swept.registration] at hr
  obtain ⟨rest, hh, -, rfl⟩ := exists_of_step hstep
  obtain ⟨rest₁, hh₁, -, rfl⟩ := exists_of_step hstep₁
  have hlive := World.isLive_iff.2 (show 0 < σ.world.handles i by omega)
  -- The prompt run takes the entry of the instance, the only one that there is.
  have hswept := (h.swept.addOwner_right r.table).lastRelease (.inl howner) hi
    (hσ.registered.stored i _ _ hr hlive) fun t' k' _ hk' => by
      have hreg := hσ.registration_of_entry
        (mem_of_needs hh (.handle i) List.mem_cons_self) hk' (by omega)
      obtain ⟨rfl, rfl⟩ := Registration.mk.inj (Option.some.inj (hreg.symm.trans hr))
      exact ⟨rfl, rfl⟩
  have hw₁ : (τ.next (.release i) rest₁).world =
      ((τ.world.addOwner r.table).loseHandle i).withJournal j' := congrArg Effect.world he'
  have hh₁' : (τ.next (.release i) rest₁).hand = rest₁ + ↑[Token.owed ⟨r.table, r.key, i⟩] :=
    congrArg (fun e : Effect => rest₁ + (e.gains : Multiset Token)) he'
  obtain ⟨j'', hd⟩ := Reclamation.detach_eq ⟨r.table, r.key, i⟩ (τ.next (.release i) rest₁).world
  rw [if_pos hown, hw₁] at hd
  have hreclaim := reclaim_eq_some hh₁'
  rw [hw₁, hd] at hreclaim
  rcases Step.effect_release i σ.world with ⟨q, j, -, hq, -, he⟩ | ⟨hn, -⟩
  · obtain rfl := Option.some.inj (hq.symm.trans hr)
    refine ⟨_, hreclaim, ?_, ?_, h.answers, h.recorded⟩
    · show ((Step.release i).effect σ.world).world.Swept _ _
      rw [he]
      exact (((hswept.addOwner_left q.table).withJournal j j'').settle_right _ true).mono hkeeps
    · rw [filterMap_next, he, ← h.rest_undelayed hh hh₁]
      exact (add_zero rest₁).symm
  · have hσo := hσ.accounted.isOwned howner List.mem_cons_self
    rw [hn hi r hr] at hσo
    cases hσo

/-- A release is taken in both. -/
theorem release (hσ : σ.Sound) (hτ : τ.Sound) (hp : τ.Prompt) (h : σ.Simulates τ) {i : InstanceId}
    (hstep : σ.step (.release i) = some σ') :
    ∃ τ', τ.stepPromptly (.release i) = some τ' ∧ σ'.Simulates τ' := by
  obtain ⟨rest, hh, -, -⟩ := exists_of_step hstep
  have hh₁ : τ.hand = rest.filterMap Token.undelayed? + ↑(Step.release i).needs := by
    rw [h.hand, filterMap_hand Token.undelayed? hh]
    rfl
  have hstep₁ := step_eq_some hh₁ trivial
  have hg := Step.owed_gains (.release i) τ.world
  rcases Step.effect_release i τ.world with ⟨r, j', hi, hr, ho, he'⟩ | ⟨hn, j', he'⟩
  · obtain ⟨τ', hreclaim, hsim⟩ := release_of_owes hσ hτ hp h hstep hstep₁ hi hr ho he'
    rw [he'] at hg
    refine ⟨τ', ?_, hsim⟩
    rw [stepPromptly, hstep₁, Option.bind_some, Option.toList_eq_singleton_iff.1 hg.symm]
    exact hreclaim
  · rw [he'] at hg
    refine ⟨_, ?_, release_of_other hσ hτ h hstep hstep₁ hn he'⟩
    rw [stepPromptly, hstep₁, Option.bind_some, Option.toList_eq_nil_iff.1 hg.symm]

/-- Beside a step stands a prompt one, or a pause. -/
theorem step (hσ : σ.Sound) (hτ : τ.Sound) (hp : τ.Prompt) (h : σ.Simulates τ)
    (hstep : σ.step s = some σ') :
    ∃ τ', runPromptly s.undelayed?.toList τ = some τ' ∧ σ'.Simulates τ' := by
  cases hu : s.undelayed? with
  | none => exact ⟨τ, rfl, h.pause hσ hu hstep⟩
  | some s' =>
    rw [Option.toList_some, runPromptly_singleton]
    by_cases hs : ∀ i, s ≠ .release i
    · exact h.step_of_ne_release hσ hτ hp hs hu hstep
    · obtain ⟨i, rfl⟩ := not_forall_not.1 hs
      obtain rfl := Option.some.inj hu
      exact h.release hσ hτ hp hstep

end Simulates

theorem simulates_empty : Simulates {} {} := by
  refine ⟨⟨rfl, rfl, fun _ => rfl, fun _ => rfl, fun _ _ => rfl⟩, ?_, rfl, rfl⟩
  rfl

/-- What a prompt step meets on its way has a property that its ends have and that is kept where
nothing is stored. -/
theorem throughout_of_stepPromptly {F : Machine → Prop}
    (hF : ∀ s m m', m.Valid → m.step s = some m' → s.interns m.world = [] → F m → F m')
    {m m' : Machine} (hm : m.Valid) (h : m.stepPromptly s = some m') (hFm : F m) (hFm' : F m') :
    ∃ l, run l m = some m' ∧ Throughout F l m := by
  obtain ⟨m₁, h₁, h⟩ := Option.bind_eq_some_iff.1 h
  cases ho : s.owes m.world with
  | none =>
    rw [ho] at h
    obtain rfl := Option.some.inj h
    refine ⟨[s], Option.bind_eq_some_iff.2 ⟨m₁, h₁, rfl⟩, hFm, fun m₂ h₂ => ?_⟩
    obtain rfl := Option.some.inj (h₁.symm.trans h₂)
    exact hFm'
  | some r =>
    have h : m₁.reclaim r = some m' := by
      rw [ho] at h
      exact h
    have hFm₁ : F m₁ := hF s m m₁ hm h₁ (by cases s <;> first | rfl | cases ho) hFm
    obtain ⟨m₂, h₂, hrest⟩ := Option.bind_eq_some_iff.1 h
    obtain ⟨m₃, h₃, hend⟩ := Option.bind_eq_some_iff.1 hrest
    obtain rfl := Option.some.inj hend
    have hFm₂ : F m₂ := hF _ m₁ m₂ (hm.step h₁) h₂ rfl hFm₁
    refine ⟨[s, .detach r, .settle r (r.detach m₁.world).1],
      Option.bind_eq_some_iff.2 ⟨m₁, h₁, h⟩, hFm, fun x hx => ?_⟩
    obtain rfl := Option.some.inj (h₁.symm.trans hx)
    refine ⟨hFm₁, fun y hy => ?_⟩
    obtain rfl := Option.some.inj (h₂.symm.trans hy)
    refine ⟨hFm₂, fun z hz => ?_⟩
    obtain rfl := Option.some.inj (h₃.symm.trans hz)
    exact hFm'

/-- Beside a run stands a prompt one.  What holds of the machines beside those that the run meets,
and is kept where nothing is stored, holds of all that the prompt run meets on its way. -/
theorem Simulates.of_run {G F : Machine → Prop}
    (hF : ∀ s m m', m.Valid → m.step s = some m' → s.interns m.world = [] → F m → F m')
    (hG : ∀ σ τ, σ.Valid → τ.Valid → τ.Prompt → σ.Simulates τ → G σ → F τ) {steps : List Step}
    (hσ : σ.Valid) (hτ : τ.Valid) (hp : τ.Prompt) (h : σ.Simulates τ)
    (hrun : run steps σ = some σ') (hG' : Throughout G steps σ) :
    ∃ τ' l, runPromptly (steps.filterMap Step.undelayed?) τ = some τ' ∧ run l τ = some τ' ∧
      Throughout F l τ ∧ σ'.Simulates τ' := by
  induction steps generalizing σ τ with
  | nil =>
    obtain rfl := Option.some.inj hrun
    exact ⟨τ, [], rfl, rfl, hG σ τ hσ hτ hp h hG', h⟩
  | cons s rest ih =>
    obtain ⟨σ₁, h₁, hrun⟩ := Option.bind_eq_some_iff.1 hrun
    have hG₁ := hG'.2 σ₁ h₁
    have hFτ := hG σ τ hσ hτ hp h hG'.1
    obtain ⟨τ₁, hstep, hsim⟩ := h.step hσ.sound hτ.sound hp h₁
    obtain ⟨l₀, hl₀⟩ := run_of_runPromptly hstep
    have hτ₁ := hτ.of_run hl₀
    have hp₁ := (hp.of_run hτ.sound hstep).2
    have hFτ₁ := hG σ₁ τ₁ (hσ.step h₁) hτ₁ hp₁ hsim hG₁.head
    obtain ⟨l₁, hl₁, hthr₁⟩ : ∃ l, run l τ = some τ₁ ∧ Throughout F l τ := by
      cases hu : s.undelayed? with
      | none =>
        rw [hu] at hstep
        obtain rfl := Option.some.inj hstep
        exact ⟨[], rfl, hFτ⟩
      | some s' =>
        rw [hu] at hstep
        obtain ⟨τ₂, hprompt, hend⟩ := Option.bind_eq_some_iff.1 hstep
        obtain rfl := Option.some.inj hend
        exact throughout_of_stepPromptly hF hτ hprompt hFτ hFτ₁
    obtain ⟨τ', l, hrun', hl, hthr, hsim'⟩ := ih (hσ.step h₁) hτ₁ hp₁ hsim hrun hG₁
    have hsteps : (s :: rest).filterMap Step.undelayed? =
        s.undelayed?.toList ++ rest.filterMap Step.undelayed? := by
      rw [List.filterMap_cons]
      cases s.undelayed? <;> rfl
    refine ⟨τ', l₁ ++ l, ?_, ?_, hthr₁.append hl₁ hthr, hsim'⟩
    · rw [hsteps, runPromptly_append, hstep]
      exact hrun'
    · rw [run_append, hl₁]
      exact hl

/-- Every run has a prompt one beside it. -/
theorem simulates_of_run {steps : List Step} (h : run steps {} = some σ) :
    ∃ τ, runPromptly (steps.filterMap Step.undelayed?) {} = some τ ∧ σ.Simulates τ := by
  obtain ⟨τ, -, hτ, -, -, hsim⟩ := simulates_empty.of_run (G := fun _ => True) (F := fun _ => True)
    (fun _ _ _ _ _ _ _ => trivial) (fun _ _ _ _ _ _ _ => trivial) valid_empty valid_empty
    prompt_empty h (throughout_of_forall fun _ => trivial)
  exact ⟨τ, hτ, hsim⟩

end Machine

end Interning
