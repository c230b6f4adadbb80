import Interning.Proofs.Machine.Installed

/-!
# Prompt reclamations

In a prompt run a reclamation is done at once, in the step that makes it due.  It is a run like any
other, with nothing owed between two steps, and so it never meets an entry of an instance that is
gone.

    a prompt run is a run                                                   (run_of_runPromptly)
    nothing is owed, no call is stale and every reclamation takes its entry   (prompt_of_run)
-/

namespace Interning.Machine

/-! ## Algorithm -/

/-- Does the whole of a reclamation. -/
def reclaim (r : Reclamation) (m : Machine) : Option Machine :=
  run [.detach r, .settle r (r.detach m.world).1] m

/-- Takes a step and does at once the reclamation that it makes due. -/
def stepPromptly (s : Step) (m : Machine) : Option Machine :=
  (m.step s).bind fun m' =>
    match s.owes m.world with
    | some r => m'.reclaim r
    | none => some m'

/-- Takes steps in order, each one promptly. -/
def runPromptly : List Step → Machine → Option Machine
  | [], m => some m
  | s :: rest, m => (m.stepPromptly s).bind (runPromptly rest)

/-- Nothing waits, and nothing ever came late. -/
structure Prompt (m : Machine) : Prop where
  owed : m.owed = 0
  detached : m.detached = 0
  fresh : ∀ p ∈ m.interned, p.2.isStale = false
  removed : ∀ p ∈ m.settled, p.2 = true

/-! ## Lemmas -/

variable {m m' : Machine} {s : Step}

/-- The whole of a reclamation that is owed. -/
theorem reclaim_eq_some {r : Reclamation} {rest : Multiset Token}
    (h : m.hand = rest + ↑[Token.owed r]) :
    m.reclaim r = some { m with
      world := r.settle (r.detach m.world).1 (r.detach m.world).2
      hand := rest
      settled := (r, (r.detach m.world).1) :: m.settled } := by
  have h₁ : m.step (.detach r) = some (m.next (.detach r) rest) := step_eq_some h trivial
  have h₂ : (m.next (.detach r) rest).step (.settle r (r.detach m.world).1) =
      some ((m.next (.detach r) rest).next (.settle r (r.detach m.world).1) rest) :=
    step_eq_some (by rfl) trivial
  have hrest : rest + ↑([] : List Token) = rest := add_zero rest
  rw [reclaim, run, h₁, Option.bind_some, run, h₂, Option.bind_some, run, next, Step.effect, hrest]
  rfl

theorem run_of_stepPromptly (h : m.stepPromptly s = some m') :
    ∃ l, run (s :: l) m = some m' := by
  obtain ⟨m₁, h₁, h⟩ := Option.bind_eq_some_iff.1 h
  cases ho : s.owes m.world with
  | none =>
    rw [ho] at h
    exact ⟨[], Option.bind_eq_some_iff.2 ⟨m₁, h₁, h⟩⟩
  | some r =>
    rw [ho] at h
    exact ⟨_, Option.bind_eq_some_iff.2 ⟨m₁, h₁, h⟩⟩

/-- A prompt run is a run. -/
theorem run_of_runPromptly {steps : List Step} (h : runPromptly steps m = some m') :
    ∃ l, run l m = some m' := by
  induction steps generalizing m with
  | nil => exact ⟨[], h⟩
  | cons s steps ih =>
    obtain ⟨m₁, h₁, h⟩ := Option.bind_eq_some_iff.1 h
    obtain ⟨l₁, hl₁⟩ := run_of_stepPromptly h₁
    obtain ⟨l, hl⟩ := ih h
    exact ⟨s :: l₁ ++ l, by rw [run_append, hl₁]; exact hl⟩

theorem runPromptly_singleton (s : Step) (m : Machine) : runPromptly [s] m = m.stepPromptly s :=
  Option.bind_fun_some _

theorem runPromptly_append (steps steps' : List Step) (m : Machine) :
    runPromptly (steps ++ steps') m = (runPromptly steps m).bind (runPromptly steps') := by
  induction steps generalizing m with
  | nil => rfl
  | cons s rest ih =>
    rw [List.cons_append, runPromptly, runPromptly, Option.bind_assoc]
    exact congrArg _ (funext fun m₁ => ih m₁)

/-- What every step of a prompt run keeps, the run keeps. -/
theorem runPromptly_induction {P : Machine → Prop} {steps : List Step}
    (hstep : ∀ s ∈ steps, ∀ m m', P m → m.stepPromptly s = some m' → P m') (hm : P m)
    (h : runPromptly steps m = some m') : P m' := by
  induction steps generalizing m with
  | nil =>
    obtain rfl := Option.some.inj h
    exact hm
  | cons s rest ih =>
    obtain ⟨m₁, h₁, h⟩ := Option.bind_eq_some_iff.1 h
    exact ih (fun s hs => hstep s (List.mem_cons_of_mem _ hs))
      (hstep s List.mem_cons_self m m₁ hm h₁) h

namespace Prompt

/-- No step of a prompt run is a piece of a reclamation. -/
theorem detaching_eq_none (hp : m.Prompt) (h : m.step s = some m') : s.detaching = none := by
  cases hs : s.detaching with
  | none => rfl
  | some r =>
    have ho := owed_step h
    have hn : s.owes m.world = none := by
      cases s with
      | detach => rfl
      | _ => cases hs
    rw [hp.owed, hs, hn] at ho
    exact absurd (congrArg Multiset.card ho) (by simp)

theorem settled_eq_none (hp : m.Prompt) (h : m.step s = some m') : s.settled = none := by
  cases hs : s.settled with
  | none => rfl
  | some p =>
    have hd := detached_step h
    have hn : s.detaches m.world = none := by
      cases s with
      | settle => rfl
      | _ => cases hs
    rw [hp.detached, hs, hn] at hd
    exact absurd (congrArg Multiset.card hd) (by simp)

/-- A call that finds nothing takes over no entry, since none is of an instance that is gone. -/
theorem fresh_step (hm : m.Sound) (hp : m.Prompt) (h : m.step s = some m') :
    ∀ p ∈ m'.interned, p.2.isStale = false := by
  intro p hmem
  rw [interned_step h, List.mem_append] at hmem
  rcases hmem with hmem | hmem
  · have hanswer := Step.mem_interns (c := p.1) (o := p.2) hmem
    have hown := hm.owned_of_answer h hanswer
    rcases Step.answer_cases hanswer with ⟨-, hh⟩ | ⟨c, x, rejected, w₁, j, rfl, hf, -, ha, -⟩
    · rw [hh _ _ rfl]
      rfl
    · obtain ⟨hc, ho⟩ := Answer.interned.inj ha
      have hown : m.world.isOwned p.1.table = true := hown
      rw [hc] at hown
      rw [ho]
      show (m.world.entries c.table).contains c.key = false
      rw [KeyMap.contains_eq_false_iff]
      cases hs : (m.world.tableAt c.table).storage with
      | retaining => exact hm.accounted.get?_retaining hs hf
      | reclaiming =>
        cases he : (m.world.entries c.table).get? c.key with
        | none => rfl
        | some i =>
          have hpend := hm.registered.pending _ _ _ hown hs he (World.live?_eq_none_iff.1 hf i he)
          rw [hp.owed] at hpend
          exact absurd hpend (Multiset.notMem_zero _)
  · exact hp.fresh p hmem

/-- The entry of an instance whose last handle goes is there. -/
theorem own_of_owes (hm : m.Sound) (h : m.step s = some m') {r : Reclamation}
    (ho : s.owes m.world = some r) : (m'.world.entries r.table).get? r.key = some r.gone := by
  obtain ⟨rest, hh, -, rfl⟩ := exists_of_step h
  cases s with
  | release i =>
    have hi := hm.accounted.isLive (mem_of_needs hh (.handle i) List.mem_cons_self)
      List.mem_cons_self
    have hg := Step.owed_gains (.release i) m.world
    have he : (m.next (.release i) rest).world.entries r.table = m.world.entries r.table :=
      Step.entries_effect (by simp) (by simp) (by simp)
    rw [he]
    rcases Step.effect_release i m.world with ⟨q, j, -, hq, -, heff⟩ | ⟨-, j, heff⟩
    · rw [heff, ho] at hg
      obtain rfl := List.singleton_inj.1 hg
      exact hm.registered.stored i _ _ hq hi
    · rw [heff, ho] at hg
      cases hg
  | _ => cases ho

theorem step (hm : m.Sound) (hp : m.Prompt) (h : m.stepPromptly s = some m') : m'.Prompt := by
  obtain ⟨m₁, h₁, h⟩ := Option.bind_eq_some_iff.1 h
  have hd := hp.detaching_eq_none h₁
  have hs := hp.settled_eq_none h₁
  have ho₁ := owed_step h₁
  have hd₁ := detached_step h₁
  have hs₁ := settled_step h₁
  rw [hp.owed, hd, Option.toList_none, Multiset.coe_nil, add_zero, zero_add] at ho₁
  rw [hp.detached, hs, Step.detaches, hd] at hd₁
  have hd₁ : m₁.detached = 0 := by simpa using hd₁
  rw [hs, Option.toList_none, List.nil_append] at hs₁
  have hf₁ := hp.fresh_step hm h₁
  cases ho : s.owes m.world with
  | none =>
    rw [ho] at h ho₁
    obtain rfl := Option.some.inj h
    exact ⟨ho₁, hd₁, hf₁, hs₁ ▸ hp.removed⟩
  | some r =>
    rw [ho] at h ho₁
    have hown := own_of_owes hm h₁ ho
    obtain ⟨m₂, h₂, h⟩ := Option.bind_eq_some_iff.1 h
    obtain ⟨m₃, h₃, h⟩ := Option.bind_eq_some_iff.1 h
    obtain rfl := Option.some.inj h
    have hremoved : (r.detach m₁.world).1 = true := by
      rw [r.detach_fst, decide_eq_true hown]
    rw [hremoved] at h₃
    have hi₂ : m₂.interned = m₁.interned := interned_step h₂
    have hi₃ : m₃.interned = m₂.interned := interned_step h₃
    have hs₂ : m₂.settled = m₁.settled := settled_step h₂
    have hs₃ : m₃.settled = (r, true) :: m₂.settled := settled_step h₃
    refine ⟨?_, ?_, ?_, ?_⟩
    · have ho₂ : m₂.owed + ↑[r] = m₁.owed := by
        simpa [Step.detaching, Step.owes] using owed_step h₂
      have ho₃ : m₃.owed = m₂.owed := by simpa [Step.detaching, Step.owes] using owed_step h₃
      rw [ho₁, Option.toList_some] at ho₂
      rw [ho₃]
      exact add_eq_right.1 ho₂
    · have hd₂ := detached_step h₂
      have hd₃ := detached_step h₃
      rw [Step.detaches_detach, decide_eq_true hown, hd₁] at hd₂
      have hd₂ : m₂.detached = ↑[(r, true)] := by simpa [Step.settled] using hd₂
      have hd₃ : m₃.detached + ↑[(r, true)] = m₂.detached := by
        simpa [Step.settled, Step.detaches, Step.detaching] using hd₃
      rw [hd₂] at hd₃
      exact add_eq_right.1 hd₃
    · rw [hi₃, hi₂]
      exact hf₁
    · intro p hmem
      rw [hs₃, hs₂, hs₁] at hmem
      rcases List.mem_cons.1 hmem with rfl | hmem
      · rfl
      · exact hp.removed p hmem

end Prompt

theorem prompt_empty : Prompt {} := ⟨rfl, rfl, nofun, nofun⟩

/-- A prompt run goes on promptly. -/
theorem Prompt.of_run {steps : List Step} (hm : m.Sound) (hp : m.Prompt)
    (h : runPromptly steps m = some m') : m'.Sound ∧ m'.Prompt := by
  refine runPromptly_induction (P := fun x => x.Sound ∧ x.Prompt) ?_ ⟨hm, hp⟩ h
  rintro s - x x' ⟨hx, hxp⟩ h
  obtain ⟨l, hl⟩ := run_of_stepPromptly h
  exact ⟨hx.of_run hl, hxp.step hx h⟩

/-- In a prompt run nothing comes late. -/
theorem prompt_of_run {steps : List Step} (h : runPromptly steps {} = some m) :
    m.Sound ∧ m.Prompt := prompt_empty.of_run sound_empty h

end Interning.Machine
