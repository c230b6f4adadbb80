import Interning.Proofs.Machine.Locks
import Interning.Proofs.Session

/-!
# No lock is held while something foreign is done

Wherever clients and threads have come to, an operation asks for no lock that it holds, gives every
lock back, and does nothing foreign in between: no normalizer, no event, and no release of a last
handle.  That release asks for the lock of the table where the instance is registered, which may be
the very table that the operation is about.

    every operation that a client may do keeps the rules of the locks             (Possible.works)
    so does every piece of one, and all that was done so far                    (foreign_unlocked)
-/

namespace Interning

/-! ## Algorithm -/

/-- A client that has `σ` may do the operation, whatever the others have in hand; the last owner of
a table is given up only when no call is in progress there. -/
structure Operation.Possible (op : Operation) (σ : Session) (m : Machine) : Prop where
  world : σ.world = m.world
  hand : tokens σ.targets σ.handles ≤ m.hand
  allowed : op.Allowed σ
  idle : ∀ t, op = .disown (.table t) → (Step.disown t).Allowed m.hand

namespace Machine

/-- All that was done and all that can be done keeps the rules of the locks. -/
structure Unlocked (m : Machine) : Prop where
  /-- What all clients and threads have done so far. -/
  history : World.Works m.world.journal.toList {} m.world
  /-- A piece of an operation, between any pieces of others. -/
  pieces : ∀ s m', m.step s = some m' → World.Works (s.acts m.world) m.world m'.world
  /-- A whole operation, with the reclamations that it makes due. -/
  whole : ∀ op σ, Operation.Possible op σ m →
    ∃ acts, World.WorksPromptly acts m.world (op.effect σ).world

/-- Two values are stored in one table under keys of the client's choice. -/
def rekeyed : List Step :=
  let c : Call := ⟨0, "x", .text "a"⟩
  let d : Call := ⟨0, "y", .text "b"⟩
  [.newTable .reclaiming 0 true,
    .begin 0 (.ofFunction fun _ => "x") (.text "a"), .check c, .enter c,
    .record c (.stored 0 false none),
    .begin 0 (.ofFunction fun _ => "y") (.text "b"), .check d, .enter d,
    .record d (.stored 1 false none)]

/-- The last handle to the first instance is handed over under the key of the second. -/
def rekeying : Operation := .intern (.table 0) (.ofFunction fun _ => "y") (.handle 0)

end Machine

/-! ## Lemmas -/

/-! ### Changes of the journal alone -/

/-- What is added to the journal and keeps the rules, if it is no release. -/
theorem World.worksPromptly_withJournal {w : World} {j : Array Act} {acts : List Act}
    (hj : j.toList = w.journal.toList ++ acts) (hacts : Act.Disciplined acts)
    (hr : ∀ i, .lastRelease i ∉ acts) : WorksPromptly acts w (w.withJournal j) where
  grown := (World.Extends.refl w).withJournal j
  journal := hj
  disciplined := hacts
  released i hi := absurd hi (hr i)
  noticed i h h' := by cases h.symm.trans h'
  retained _ _ _ _ _ h := h
  reclaimed before i after heq := absurd (heq ▸ by simp) (hr i)

theorem World.worksPromptly_refl (w : World) : WorksPromptly [] w w :=
  worksPromptly_withJournal (j := w.journal) (List.append_nil _).symm .nil fun _ => List.not_mem_nil

theorem World.worksPromptly_report (e : Event) (w : World) :
    WorksPromptly [.report e] w (w.report e) :=
  worksPromptly_withJournal Array.toList_push (.single rfl) (by simp)

/-- A target that has a table answers from under its lock. -/
theorem World.worksPromptly_ask (s : Strategy) (q : Query) (w : World) :
    ∃ acts, WorksPromptly acts w (q.effect s w) := by
  cases s with
  | passthrough => cases q <;> exact ⟨[], w.worksPromptly_refl⟩
  | table t =>
    have hj : ((w.note (.lock t)).note (.unlock t)).journal.toList =
        w.journal.toList ++ [.lock t, .unlock t] := by
      rw [journal_note, journal_note, List.append_assoc]
      rfl
    have hasked := worksPromptly_withJournal hj (.locked t) (by simp)
    cases q <;> exact ⟨_, hasked⟩

/-! ### What an operation needs -/

section Tokens

variable {targets : Multiset Strategy} {handles : Multiset InstanceId}

theorem handles_le_tokens (targets : Multiset Strategy) {is : List InstanceId}
    (hi : ↑is ≤ handles) :
    (↑(is.map Token.handle) : Multiset Token) ≤ tokens targets handles := by
  obtain ⟨left, rfl⟩ := Multiset.le_iff_exists_add.1 hi
  rw [add_comm, tokens_add_handles]
  exact Multiset.le_add_left ..

theorem owner_handles_le_tokens {t : TableId} {is : List InstanceId} (ht : .table t ∈ targets)
    (hi : ↑is ≤ handles) :
    (↑(Token.owner t :: is.map Token.handle) : Multiset Token) ≤ tokens targets handles := by
  obtain ⟨rest, rfl⟩ := Multiset.exists_cons_of_mem ht
  have hle := add_le_add_left (handles_le_tokens rest hi) ↑[Token.owner t]
  rw [tokens_cons_table]
  refine le_trans (le_of_eq ?_) hle
  exact (zero_add _).symm.trans ((add_coe_cons 0 _ _).trans (by rw [zero_add]))

theorem owner_le_tokens {t : TableId} (ht : .table t ∈ targets) :
    (↑[Token.owner t] : Multiset Token) ≤ tokens targets handles :=
  have hnone : (↑([] : List InstanceId) : Multiset InstanceId) ≤ handles := Multiset.zero_le _
  owner_handles_le_tokens ht hnone

theorem handle_le_tokens {i : InstanceId} (hi : i ∈ handles) :
    (↑[Token.handle i] : Multiset Token) ≤ tokens targets handles :=
  have hone : (↑[i] : Multiset InstanceId) ≤ handles := Multiset.singleton_le.2 hi
  handles_le_tokens targets hone

/-- Whoever has what is handed over and an owner of the table may call. -/
theorem begin_le_tokens {t : TableId} {a : Argument} (f : Normalizer) (ht : .table t ∈ targets)
    (ha : ∀ i ∈ a.leftover, i ∈ handles) :
    (↑(Step.begin t f a).needs : Multiset Token) ≤ tokens targets handles := by
  refine owner_handles_le_tokens ht ?_
  cases a with
  | text text => exact Multiset.zero_le _
  | handle i => exact Multiset.singleton_le.2 (ha i rfl)

end Tokens

/-! ### Operations -/

namespace Machine.Sound

variable {m : Machine} (hm : m.Sound)

include hm

/-- What a machine performs keeps the rules. -/
theorem worksPromptly_performs {storeless : Bool} {w : World} {hand : Multiset Token}
    {answers : List Answer} (h : m.Performs storeless w hand answers) :
    ∃ acts, World.WorksPromptly acts m.world w := by
  obtain ⟨l, m', hrun, -, rfl, -, -⟩ := h
  exact hm.worksPromptly_run hrun

/-- So does a single step that owes nothing. -/
theorem worksPromptly_step (s : Step) (hs : (↑s.needs : Multiset Token) ≤ m.hand)
    (ha : s.Allowed m.hand) (ho : s.owes m.world = none) :
    ∃ acts, World.WorksPromptly acts m.world (s.effect m.world).world := by
  have hstep := step_eq_some (tsub_add_cancel_of_le hs).symm ha
  exact ⟨_, hm.worksPromptly_of_owes_none hstep ho⟩

theorem worksPromptly_ofMode (mode : ResolvedMode) (capacity : UInt64) (tracked : Bool) :
    ∃ acts, World.WorksPromptly acts m.world (Strategy.ofMode mode capacity tracked m.world).2 := by
  cases mode with
  | passthrough => exact ⟨[], m.world.worksPromptly_refl⟩
  | reclaiming =>
    exact hm.worksPromptly_step (.newTable .reclaiming capacity tracked) (Multiset.zero_le _)
      trivial rfl
  | retaining =>
    exact hm.worksPromptly_step (.newTable .retaining capacity tracked) (Multiset.zero_le _)
      trivial rfl

/-- An interner is made, and then it is reported which one. -/
theorem worksPromptly_made (mode : ResolvedMode) (capacity : UInt64) (tracked : Bool) (e : Event) :
    ∃ acts, World.WorksPromptly acts m.world
      ((Strategy.ofMode mode capacity tracked m.world).2.report e) := by
  obtain ⟨acts, hacts⟩ := hm.worksPromptly_ofMode mode capacity tracked
  exact ⟨_, hacts.trans (fun _ _ => hm.table_lt) (World.worksPromptly_report e _)⟩

end Machine.Sound

namespace Operation.Possible

variable {m : Machine} {σ : Session} (hm : m.Sound)

include hm

theorem works_share {s : Strategy} (h : Possible (.share s) σ m) :
    ∃ acts, World.WorksPromptly acts m.world (s.share m.world) := by
  cases s with
  | passthrough => exact ⟨[], m.world.worksPromptly_refl⟩
  | table t =>
    exact hm.worksPromptly_step (.share t) (le_trans (owner_le_tokens h.allowed) h.hand) trivial rfl

theorem works_disown {s : Strategy} (h : Possible (.disown s) σ m) :
    ∃ acts, World.WorksPromptly acts m.world (s.disown m.world) := by
  cases s with
  | passthrough => exact ⟨[], m.world.worksPromptly_refl⟩
  | table t =>
    have hhand := tsub_add_cancel_of_le (le_trans (owner_le_tokens h.allowed) h.hand)
    exact hm.worksPromptly_performs (Machine.disown_promptly hhand.symm (h.idle t rfl))

theorem works_drop {i : InstanceId} (h : Possible (.drop i) σ m) :
    ∃ acts, World.WorksPromptly acts m.world (m.world.drop i) := by
  have hhand := tsub_add_cancel_of_le (le_trans (handle_le_tokens h.allowed) h.hand)
  exact hm.worksPromptly_performs (Machine.drop_promptly hhand.symm)

theorem works_intern {s : Strategy} {f : Normalizer} {a : Argument}
    (h : Possible (.intern s f a) σ m) :
    ∃ acts, World.WorksPromptly acts m.world (s.intern f a m.world).2 := by
  cases s with
  | passthrough =>
    cases a with
    | text text => exact hm.worksPromptly_step (.value text) (Multiset.zero_le _) trivial rfl
    | handle i => exact ⟨[], m.world.worksPromptly_refl⟩
  | table t =>
    have hle := le_trans (begin_le_tokens f h.allowed.1 h.allowed.2) h.hand
    exact hm.worksPromptly_performs (Machine.intern_promptly (tsub_add_cancel_of_le hle).symm)

theorem works_lookup {s : Strategy} {key : String} (h : Possible (.lookup s key) σ m) :
    ∃ acts, World.WorksPromptly acts m.world (s.lookup key m.world).2 := by
  cases s with
  | passthrough => exact ⟨[], m.world.worksPromptly_refl⟩
  | table t =>
    exact hm.worksPromptly_step (.lookup t key) (le_trans (owner_le_tokens h.allowed) h.hand)
      trivial rfl

/-- The interner normalizes, and then its table is asked. -/
theorem works_find {n : Interner} {text : String} (h : Possible (.find n text) σ m) :
    ∃ acts, World.WorksPromptly acts m.world (n.lookup text m.world).2 := by
  obtain ⟨s, f⟩ := n
  cases s with
  | passthrough => exact ⟨[], m.world.worksPromptly_refl⟩
  | table t =>
    have hstep := Machine.step_eq_some (m := m) (s := .normalize) (add_zero _).symm trivial
    have hnormalized := hm.worksPromptly_of_owes_none hstep rfl
    have hle := le_trans (owner_le_tokens h.allowed) h.hand
    obtain ⟨acts, hfound⟩ := (hm.step hstep).worksPromptly_step (.lookup t (f.key text))
      (le_of_le_of_eq hle (add_zero _).symm) trivial rfl
    exact ⟨_, hnormalized.trans (fun _ _ => hm.table_lt) hfound⟩

/-- Every operation keeps the rules, whatever else is under way. -/
theorem works {op : Operation} (h : op.Possible σ m) :
    ∃ acts, World.WorksPromptly acts m.world (op.effect σ).world := by
  rcases σ with ⟨w, targets, handles⟩
  obtain rfl : w = m.world := h.world
  cases op with
  | plain mode => exact hm.worksPromptly_made mode 0 false _
  | configured c caps f =>
    simp only [effect, Interner.withNormalizer, Strategy.select]
    cases c.resolve caps with
    | error => exact ⟨[], m.world.worksPromptly_refl⟩
    | ok mode => exact hm.worksPromptly_made mode c.initialCapacity c.trackMemory _
  | bare c caps =>
    simp only [effect, Strategy.select]
    cases c.resolve caps with
    | error => exact ⟨[], m.world.worksPromptly_refl⟩
    | ok mode => exact hm.worksPromptly_ofMode mode c.initialCapacity c.trackMemory
  | share s => exact h.works_share hm
  | disown s => exact h.works_disown hm
  | value text => exact hm.worksPromptly_step (.value text) (Multiset.zero_le _) trivial rfl
  | clone i =>
    exact hm.worksPromptly_step (.clone i) (le_trans (handle_le_tokens h.allowed) h.hand)
      trivial rfl
  | drop i => exact h.works_drop hm
  | intern s f a => exact h.works_intern hm
  | lookup s key => exact h.works_lookup hm
  | find n text => exact h.works_find hm
  | ask s q => exact m.world.worksPromptly_ask s q

end Operation.Possible

/-! ### Main statement -/

namespace Machine

/-- Whatever clients and threads do, in any order of their steps. -/
theorem foreign_unlocked {steps : List Step} {m : Machine} (h : run steps {} = some m) :
    m.Unlocked where
  history := by
    obtain ⟨acts, hacts⟩ := sound_empty.works_run h
    have hjournal : m.world.journal.toList = acts := hacts.journal
    rw [hjournal]
    exact hacts
  pieces _ _ hs := (sound_of_run h).works hs
  whole _ _ hop := hop.works (sound_of_run h)

/-- A call gives up the last handle to an instance that its own table knows under another key: the
table is asked for its lock again, after the call gave it back. -/
theorem foreign_unlocked_rekeyed :
    ∃ m σ, run rekeyed {} = some m ∧ m.Unlocked ∧ rekeying.Possible σ m ∧
      m.world.registration 0 = some ⟨0, "x"⟩ ∧
      World.WorksPromptly [.normalize, .lock 0, .unlock 0, .lastRelease 0, .lock 0, .unlock 0,
        .report (.entryReclaimed "x")] m.world (rekeying.effect σ).world := by
  let m := (run rekeyed {}).get (by decide +kernel)
  let σ : Session := ⟨m.world, {.table 0}, {0, 1}⟩
  have h : run rekeyed {} = some m := (Option.some_get _).symm
  have hunlocked := foreign_unlocked h
  have hpossible : rekeying.Possible σ m :=
    ⟨rfl, by decide +kernel, by decide +kernel, fun t h => by cases h⟩
  have hjournal : (rekeying.effect σ).world.journal.toList = m.world.journal.toList ++ [.normalize,
      .lock 0, .unlock 0, .lastRelease 0, .lock 0, .unlock 0, .report (.entryReclaimed "x")] := by
    decide +kernel
  obtain ⟨acts, hacts⟩ := hunlocked.whole rekeying σ hpossible
  obtain rfl := List.append_cancel_left (hacts.journal.symm.trans hjournal)
  exact ⟨m, σ, h, hunlocked, hpossible, by decide +kernel, hacts⟩

end Machine

end Interning
