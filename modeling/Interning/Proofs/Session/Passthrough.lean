import Interning.Proofs.Session

/-!
# Passthrough targets leave no trace

What is done with a passthrough target can be left out of a session, or of the work of any number of
threads, and nobody can tell: what is interned there is the handle given, or a fresh instance that
no table knows of, and the target itself stores and counts nothing.

    the log of what is left is what is left of the log                             (history_erased)
    between the pieces of other operations it is the same                             (work_erased)
    all of it for every session, with what is answered              (passthrough_leaves_no_trace)
-/

namespace Interning

/-! ## Algorithm -/

/-! ### Answers -/

/-- What an operation answers. -/
inductive Reply
  | done
  /-- The target made, or why there is none. -/
  | made (s : Except Error Strategy)
  | instance (i : InstanceId)
  | found (i : Option InstanceId)
  | number (n : Nat)
  | truth (b : Bool)
  | stats (s : Stats)

/-- What a target answers when it is asked. -/
def Query.reply (s : Strategy) (w : World) : Query → Reply
  | size => .number (s.size w).1
  | liveSize => .number (s.liveSize w).1
  | isEmpty => .truth (s.isEmpty w).1
  | stats => .stats (s.stats w).1

/-- What an operation answers in a session. -/
def Operation.reply (σ : Session) : Operation → Reply
  | plain mode => .made (.ok (Interner.ofMode mode σ.world).1.strategy)
  | configured c caps f =>
    .made ((Interner.withNormalizer c caps f σ.world).map fun made => made.1.strategy)
  | bare c caps => .made ((Strategy.select c caps σ.world).map Prod.fst)
  | share _ | disown _ | clone _ | drop _ => .done
  | value text => .instance (σ.world.create text).1
  | intern s f a => .instance (s.intern f a σ.world).1
  | lookup s key => .found (s.lookup key σ.world).1
  | find n text => .found (n.lookup text σ.world).1
  | ask s q => q.reply s σ.world

/-- An operation that was done, with its answer and the session after it. -/
structure Record where
  op : Operation
  reply : Reply
  after : Session

/-- The records of operations that are done in order, if each of them is allowed. -/
def Session.history : List Operation → Session → Option (List Record)
  | [], _ => some []
  | op :: rest, σ =>
    (σ.perform op).bind fun σ' => (history rest σ').map (⟨op, op.reply σ, σ'⟩ :: ·)

/-! ### Leaving out -/

/-- What stands for an operation when passthrough targets are left out: a text interned is a fresh
value, and there is nothing else to do. -/
def Operation.erased? : Operation → Option Operation
  | intern .passthrough _ (.handle _) => none
  | intern .passthrough _ (.text s) => some (value s)
  | lookup .passthrough _ => none
  | find ⟨.passthrough, _⟩ _ => none
  | ask .passthrough _ => none
  | op => some op

def Record.erased? (r : Record) : Option Record := r.op.erased?.map fun op => { r with op := op }

/-- An instance was made last, of a text, and nobody but the caller knows of it. -/
structure World.Fresh (w : World) (text : String) (i : InstanceId) : Prop where
  last : i + 1 = w.instances.size
  text : w.text i = text
  handles : w.handles i = 1
  registration : w.registration i = none

/-- What a passthrough target answers. -/
def Record.Passes (r : Record) : Prop :=
  match r.op with
  | .intern .passthrough _ (.handle i) => r.reply = .instance i
  | .intern .passthrough _ (.text s) => ∃ i, r.reply = .instance i ∧ r.after.world.Fresh s i
  | .lookup .passthrough _ => r.reply = .found none
  | .find ⟨.passthrough, _⟩ _ => r.reply = .found none
  | .ask .passthrough .size => r.reply = .number 0
  | .ask .passthrough .liveSize => r.reply = .number 0
  | .ask .passthrough .isEmpty => r.reply = .truth true
  | .ask .passthrough .stats => r.reply = .stats ⟨.passthrough, {}, 0⟩
  | _ => True

/-! ### Threads -/

/-- What a client does with a passthrough target; there are no pieces of it. -/
inductive Passing
  | intern (f : Normalizer) (a : Argument)
  | lookup (key : String)
  | find (f : Normalizer) (text : String)
  | ask (q : Query)

namespace Passing

/-- The tokens that it takes out of the hand. -/
def needs : Passing → List Token
  | intern _ a => a.leftover.toList.map .handle
  | _ => []

/-- What it leaves of the world and puts in the hand. -/
def effect (w : World) : Passing → World × List Token
  | intern f a =>
    let (i, w) := Strategy.passthrough.intern f a w
    (w, [.handle i])
  | lookup key =>
    let (found, w) := Strategy.passthrough.lookup key w
    (w, found.toList.map .handle)
  | find f text =>
    let (found, w) := (Interner.mk .passthrough f).lookup text w
    (w, found.toList.map .handle)
  | ask q => (q.effect .passthrough w, [])

/-- The step that stands for it, if one is needed. -/
def step? : Passing → Option Step
  | intern _ (.text s) => some (.value s)
  | _ => none

end Passing

/-- What a thread does next: a piece of an operation, or something with a passthrough target. -/
inductive Work
  | step (s : Step)
  | pass (p : Passing)

/-- The step that stands for some work, if one is needed. -/
def Work.step? : Work → Option Step
  | step s => some s
  | pass p => p.step?

namespace Machine

/-- Does something with a passthrough target, if the hand has what it needs. -/
def pass (p : Passing) (m : Machine) : Option Machine :=
  if ↑p.needs ≤ m.hand then
    some { m with
      world := (p.effect m.world).1
      hand := m.hand - ↑p.needs + ↑(p.effect m.world).2 }
  else none

/-- Does some work, if it can be done. -/
def perform : Work → Machine → Option Machine
  | .step s, m => m.step s
  | .pass p, m => m.pass p

/-- Does work in order, if all of it can be done. -/
def performAll : List Work → Machine → Option Machine
  | [], m => some m
  | x :: rest, m => (m.perform x).bind (performAll rest)

end Machine

/-- Passthrough targets leave no trace in a session, nor in what threads do from there on. -/
structure Session.Traceless (ops : List Operation) (σ σ' : Session) : Prop where
  /-- The operations that are left lead to the same session. -/
  run : run (ops.filterMap Operation.erased?) σ = some σ'
  /-- They have the same answers, and leave the same sessions, one after another; and what was left
  out answered with what was given, with fresh values, or with nothing. -/
  log : ∃ log, history ops σ = some log ∧
    history (ops.filterMap Operation.erased?) σ = some (log.filterMap Record.erased?) ∧
    ∀ r ∈ log, r.Passes
  /-- Between the pieces of other operations nothing is left, either. -/
  threads : ∀ work m m', m.world = σ'.world → Machine.performAll work m = some m' →
    Machine.run (work.filterMap Work.step?) m = some m'

/-- A value passes through while a table stores it, its double passes through and is interned, and
both are dropped. -/
def Session.passedThrough : List Operation :=
  [.plain .reclaiming, .plain .passthrough, .value "a",
    .intern (.table 0) .verbatim (.handle 0), .intern .passthrough .verbatim (.handle 0),
    .find ⟨.passthrough, .verbatim⟩ "a", .intern .passthrough .verbatim (.text "a"),
    .intern (.table 0) .verbatim (.handle 1), .ask .passthrough .stats, .drop 0, .drop 0]

/-! ## Lemmas -/

/-! ### Sessions -/

theorem World.fresh_create (text : String) (w : World) :
    (w.create text).2.Fresh text (w.create text).1 where
  last := (World.size_create text).symm
  text := by rw [World.text_create, World.create_fst, if_pos rfl]
  handles := by
    rw [World.handles_create, World.create_fst, if_pos rfl, World.handles, World.instanceAt_size]
    rfl
  registration := by rw [World.registration_create, World.create_fst, World.registration_size]

namespace Session

variable {σ σ' : Session} {op op' : Operation} {ops : List Operation} {log : List Record}

theorem history_cons_iff :
    history (op :: ops) σ = some log ↔ op.Allowed σ ∧ ∃ rest,
      history ops (op.effect σ) = some rest ∧ log = ⟨op, op.reply σ, op.effect σ⟩ :: rest := by
  rw [history, perform]
  by_cases ha : op.Allowed σ
  · rw [if_pos ha, Option.bind_some, Option.map_eq_some_iff, and_iff_right ha]
    exact exists_congr fun rest => and_congr_right fun _ => eq_comm
  · rw [if_neg ha, Option.bind_none]
    exact iff_of_false (Option.some_ne_none log).symm fun h => ha h.1

/-- What is done is recorded. -/
theorem exists_history (h : run ops σ = some σ') : ∃ log, history ops σ = some log := by
  induction ops generalizing σ with
  | nil => exact ⟨[], rfl⟩
  | cons op ops ih =>
    obtain ⟨ha, h⟩ := run_cons_iff.1 h
    obtain ⟨rest, hrest⟩ := ih h
    exact ⟨_, history_cons_iff.2 ⟨ha, rest, hrest, rfl⟩⟩

/-- What is left out does nothing. -/
theorem effect_of_erased_none (ha : op.Allowed σ) (h : op.erased? = none) : op.effect σ = σ := by
  have hlookup : ({ σ with handles := 0 + σ.handles } : Session) = σ := by rw [zero_add]
  cases op with
  | intern s f a =>
    cases s with
    | table t => cases h
    | passthrough =>
      cases a with
      | text s => cases h
      | handle i =>
        -- The handle is given and comes back.
        have hi : i ∈ σ.handles := ha.2 i rfl
        show ({ σ with handles := i ::ₘ (σ.handles - ↑[i]) } : Session) = σ
        rw [Multiset.coe_singleton, Multiset.sub_singleton, Multiset.cons_erase hi]
  | lookup s key =>
    cases s with
    | table t => cases h
    | passthrough => exact hlookup
  | find n text =>
    obtain ⟨s, f⟩ := n
    cases s with
    | table t => cases h
    | passthrough => exact hlookup
  | ask s q =>
    cases s with
    | table t => cases h
    | passthrough => cases q <;> rfl
  | _ => cases h

/-- What stands for an operation is allowed where that is, does the same and answers the same. -/
theorem alike_of_erased_some (ha : op.Allowed σ) (h : op.erased? = some op') :
    op'.Allowed σ ∧ op'.effect σ = op.effect σ ∧ op'.reply σ = op.reply σ := by
  have hself : some op = some op' →
      op'.Allowed σ ∧ op'.effect σ = op.effect σ ∧ op'.reply σ = op.reply σ := by
    intro h
    obtain rfl := Option.some.inj h
    exact ⟨ha, rfl, rfl⟩
  cases op with
  | intern s f a =>
    cases s with
    | table t => exact hself h
    | passthrough =>
      cases a with
      | handle i => cases h
      | text s =>
        obtain rfl := Option.some.inj h
        refine ⟨trivial, ?_, rfl⟩
        show _ = ({ σ with
          world := (σ.world.create s).2
          handles := (σ.world.create s).1 ::ₘ (σ.handles - 0) } : Session)
        rw [tsub_zero]
        rfl
  | lookup s key =>
    cases s with
    | table t => exact hself h
    | passthrough => cases h
  | find n text =>
    obtain ⟨s, f⟩ := n
    cases s with
    | table t => exact hself h
    | passthrough => cases h
  | ask s q =>
    cases s with
    | table t => exact hself h
    | passthrough => cases h
  | _ => exact hself h

/-- The operations that are left lead to the same session. -/
theorem run_erased (h : run ops σ = some σ') :
    run (ops.filterMap Operation.erased?) σ = some σ' := by
  induction ops generalizing σ with
  | nil => exact h
  | cons op ops ih =>
    obtain ⟨ha, h⟩ := run_cons_iff.1 h
    cases he : op.erased? with
    | none =>
      rw [List.filterMap_cons_none he]
      exact ih (effect_of_erased_none ha he ▸ h)
    | some op' =>
      obtain ⟨ha', heffect, -⟩ := alike_of_erased_some ha he
      rw [List.filterMap_cons_some he, run_cons_iff, heffect]
      exact ⟨ha', ih h⟩

/-- The log of what is left is what is left of the log. -/
theorem history_erased (h : history ops σ = some log) :
    history (ops.filterMap Operation.erased?) σ = some (log.filterMap Record.erased?) := by
  induction ops generalizing σ log with
  | nil =>
    obtain rfl := Option.some.inj h
    rfl
  | cons op ops ih =>
    obtain ⟨ha, rest, hrest, rfl⟩ := history_cons_iff.1 h
    cases he : op.erased? with
    | none =>
      have hr : Record.erased? ⟨op, op.reply σ, op.effect σ⟩ = none := by
        rw [Record.erased?, he, Option.map_none]
      rw [List.filterMap_cons_none he, List.filterMap_cons_none hr]
      exact ih (effect_of_erased_none ha he ▸ hrest)
    | some op' =>
      obtain ⟨ha', heffect, hreply⟩ := alike_of_erased_some ha he
      have hr : Record.erased? ⟨op, op.reply σ, op.effect σ⟩ =
          some ⟨op', op'.reply σ, op'.effect σ⟩ := by
        rw [Record.erased?, he, Option.map_some, heffect, hreply]
      rw [List.filterMap_cons_some he, List.filterMap_cons_some hr]
      exact history_cons_iff.2 ⟨ha', _, heffect ▸ ih hrest, rfl⟩

/-- What a passthrough target answers, whatever was done before. -/
theorem passes (op : Operation) (σ : Session) :
    (⟨op, op.reply σ, op.effect σ⟩ : Record).Passes := by
  cases op with
  | intern s f a =>
    cases s with
    | table t => trivial
    | passthrough =>
      cases a with
      | handle i => rfl
      | text s => exact ⟨_, rfl, World.fresh_create s σ.world⟩
  | lookup s key =>
    cases s with
    | table t => trivial
    | passthrough => rfl
  | find n text =>
    obtain ⟨s, f⟩ := n
    cases s with
    | table t => trivial
    | passthrough => rfl
  | ask s q =>
    cases s with
    | table t => trivial
    | passthrough => cases q <;> rfl
  | _ => trivial

theorem passes_of_mem_history (h : history ops σ = some log) : ∀ r ∈ log, r.Passes := by
  induction ops generalizing σ log with
  | nil =>
    obtain rfl := Option.some.inj h
    exact fun _ hr => nomatch hr
  | cons op ops ih =>
    obtain ⟨-, rest, hrest, rfl⟩ := history_cons_iff.1 h
    intro r hr
    rcases List.mem_cons.1 hr with rfl | hr
    · exact passes op σ
    · exact ih hrest r hr

end Session

/-! ### Threads -/

namespace Machine

variable {m m' : Machine}

/-- What is done with a passthrough target and no step stands for does nothing. -/
theorem pass_of_step_none {p : Passing} (hp : p.step? = none) (h : m.pass p = some m') :
    m' = m := by
  have hnothing : ({ m with hand := m.hand - 0 + 0 } : Machine) = m := by
    rw [tsub_zero, add_zero]
  rw [pass, Option.ite_none_right_eq_some, Option.some_inj] at h
  obtain ⟨hneeds, rfl⟩ := h
  cases p with
  | intern f a =>
    cases a with
    | text s => cases hp
    | handle i =>
      have hhand : m.hand - ↑[Token.handle i] + ↑[Token.handle i] = m.hand :=
        tsub_add_cancel_of_le hneeds
      show ({ m with hand := m.hand - ↑[Token.handle i] + ↑[Token.handle i] } : Machine) = m
      rw [hhand]
  | lookup key => exact hnothing
  | find f text => exact hnothing
  | ask q => cases q <;> exact hnothing

/-- What a step stands for does what the step does. -/
theorem pass_of_step_some {p : Passing} {s : Step} (hp : p.step? = some s)
    (h : m.pass p = some m') : m.step s = some m' := by
  rw [pass, Option.ite_none_right_eq_some, Option.some_inj] at h
  obtain ⟨-, rfl⟩ := h
  cases p with
  | intern f a =>
    cases a with
    | handle i => cases hp
    | text text =>
      obtain rfl := Option.some.inj hp
      exact if_pos ⟨Multiset.zero_le _, trivial⟩
  | _ => cases hp

/-- The steps that are left lead to the same machine. -/
theorem work_erased {work : List Work} (h : performAll work m = some m') :
    run (work.filterMap Work.step?) m = some m' := by
  induction work generalizing m with
  | nil => exact h
  | cons x work ih =>
    obtain ⟨m₁, h₁, hrest⟩ := Option.bind_eq_some_iff.1 h
    cases hx : x.step? with
    | none =>
      rw [List.filterMap_cons_none hx]
      cases x with
      | step s => cases hx
      | pass p =>
        obtain rfl := pass_of_step_none hx h₁
        exact ih hrest
    | some s =>
      have hs : m.step s = some m₁ := by
        cases x with
        | step s' =>
          obtain rfl := Option.some.inj hx
          exact h₁
        | pass p => exact pass_of_step_some hx h₁
      rw [List.filterMap_cons_some hx, run, hs]
      exact ih hrest

end Machine

/-- Passthrough targets leave no trace, whatever else is done with the values that pass. -/
theorem Session.passthrough_leaves_no_trace (ops : List Operation) (σ σ' : Session)
    (h : run ops σ = some σ') : Traceless ops σ σ' := by
  obtain ⟨log, hlog⟩ := exists_history h
  constructor
  case run => exact run_erased h
  case log => exact ⟨log, hlog, history_erased hlog, passes_of_mem_history hlog⟩
  case threads => exact fun work m m' _ hwork => Machine.work_erased hwork

/-- The value that passed through is reclaimed as if it had not; of the four passthrough operations
one value is left. -/
theorem Session.passthrough_leaves_no_trace_reclaimed :
    ∃ σ, run passedThrough {} = some σ ∧ Traceless passedThrough {} σ ∧
      (passedThrough.filterMap Operation.erased?).length = 8 ∧
      (σ.world.tableAt 0).counters.hits = 1 ∧ (σ.world.tableAt 0).counters.reclaimed = 1 ∧
      σ.world.instances.size = 2 := by
  let σ := (run passedThrough {}).get (by decide +kernel)
  have h : run passedThrough {} = some σ := (Option.some_get _).symm
  exact ⟨σ, h, passthrough_leaves_no_trace passedThrough {} σ h, by decide +kernel,
    by decide +kernel, by decide +kernel, by decide +kernel⟩

end Interning
