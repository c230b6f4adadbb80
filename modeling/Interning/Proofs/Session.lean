import Interning.Interner
import Interning.Proofs.Machine.Sequential
import Interning.Proofs.Machine.Vacancy

/-!
# Sessions

A `Session` is a world with the targets and the handles that clients have there.  Its operations are
those of interners, bare tables and handles, one after another and each of them whole.  What is true
of every prompt run is true of a session: there is a machine with the same world and the same things
in hand, with nothing under way and with its history in order, its `Shadow`.

    σ.perform op = some σ' ↔ the operation is allowed and σ' is what it leaves
                                                                         (perform_eq_some_iff)
    what every operation keeps, every session keeps                       (run_concat_induction)
    every session has a shadow                                                   (shadow_of_run)
-/

namespace Interning

/-! ## Algorithm -/

/-- What a client may ask of a target. -/
inductive Query
  | size
  | liveSize
  | isEmpty
  | stats

/-- What is left when a target was asked. -/
def Query.effect (s : Strategy) (w : World) : Query → World
  | size => (s.size w).2
  | liveSize => (s.liveSize w).2
  | isEmpty => (s.isEmpty w).2
  | stats => (s.stats w).2

/-- What a client may have done. -/
inductive Operation
  /-- The plain interner of a mode is made. -/
  | plain (mode : ResolvedMode)
  /-- The interner of a configuration is made, with a normalizer of the client's own. -/
  | configured (c : Config) (caps : HostCapabilities) (f : Normalizer)
  /-- The bare table of a configuration is made. -/
  | bare (c : Config) (caps : HostCapabilities)
  /-- One more owner of a target is made. -/
  | share (s : Strategy)
  /-- An owner of a target is given up. -/
  | disown (s : Strategy)
  /-- An instance that is in no table is made. -/
  | value (text : String)
  /-- One more handle is made. -/
  | clone (i : InstanceId)
  /-- A handle is dropped. -/
  | drop (i : InstanceId)
  /-- A value is interned. -/
  | intern (s : Strategy) (f : Normalizer) (a : Argument)
  /-- A key is looked up in a bare table. -/
  | lookup (s : Strategy) (key : String)
  /-- A text is looked up in an interner. -/
  | find (n : Interner) (text : String)
  /-- A target is asked. -/
  | ask (s : Strategy) (q : Query)

/-- A world and what clients have there. -/
structure Session where
  world : World := {}
  /-- The interners and tables, each as often as it has owners. -/
  targets : Multiset Strategy := 0
  handles : Multiset InstanceId := 0

namespace Operation

/-- The clients have what the operation works on. -/
def Allowed (σ : Session) : Operation → Prop
  | plain _ | configured _ _ _ | bare _ _ | value _ => True
  | share s | disown s | lookup s _ | ask s _ => s ∈ σ.targets
  | find n _ => n.strategy ∈ σ.targets
  | clone i | drop i => i ∈ σ.handles
  | intern s _ a => s ∈ σ.targets ∧ ∀ i ∈ a.leftover, i ∈ σ.handles

instance (σ : Session) (op : Operation) : Decidable (op.Allowed σ) := by
  cases op <;> unfold Allowed <;> infer_instance

/-- What an operation leaves. -/
def effect (σ : Session) : Operation → Session
  | plain mode =>
    let (n, w) := Interner.ofMode mode σ.world
    { σ with world := w, targets := n.strategy ::ₘ σ.targets }
  | configured c caps f =>
    match Interner.withNormalizer c caps f σ.world with
    | .ok (n, w) => { σ with world := w, targets := n.strategy ::ₘ σ.targets }
    | .error _ => σ
  | bare c caps =>
    match Strategy.select c caps σ.world with
    | .ok (s, w) => { σ with world := w, targets := s ::ₘ σ.targets }
    | .error _ => σ
  | share s => { σ with world := s.share σ.world, targets := s ::ₘ σ.targets }
  | disown s => { σ with world := s.disown σ.world, targets := σ.targets.erase s }
  | value text =>
    let (i, w) := σ.world.create text
    { σ with world := w, handles := i ::ₘ σ.handles }
  | clone i => { σ with world := σ.world.addHandle i, handles := i ::ₘ σ.handles }
  | drop i => { σ with world := σ.world.drop i, handles := σ.handles.erase i }
  | intern s f a =>
    let (i, w) := s.intern f a σ.world
    { σ with world := w, handles := i ::ₘ (σ.handles - ↑a.leftover.toList) }
  | lookup s key =>
    let (found, w) := s.lookup key σ.world
    { σ with world := w, handles := ↑found.toList + σ.handles }
  | find n text =>
    let (found, w) := n.lookup text σ.world
    { σ with world := w, handles := ↑found.toList + σ.handles }
  | ask s q => { σ with world := q.effect s σ.world }

/-- Whether an operation may store an instance. -/
def isIntern : Operation → Bool
  | intern _ _ _ => true
  | _ => false

end Operation

/-- The owners and handles that some targets and handles are. -/
def tokens (targets : Multiset Strategy) (handles : Multiset InstanceId) : Multiset Token :=
  (targets.filterMap Strategy.table?).map .owner + handles.map .handle

namespace Session

/-- Does an operation, if it is allowed. -/
def perform (op : Operation) (σ : Session) : Option Session :=
  if op.Allowed σ then some (op.effect σ) else none

/-- Does operations in order, if each of them is allowed. -/
def run : List Operation → Session → Option Session
  | [], σ => some σ
  | op :: rest, σ => (σ.perform op).bind (run rest)

/-- A machine in the state of a session: nothing is under way, and its history is in order. -/
structure Shadow (σ : Session) (m : Machine) : Prop where
  world : m.world = σ.world
  hand : m.hand = tokens σ.targets σ.handles
  valid : m.Valid
  prompt : m.Prompt
  tallied : ∀ t, m.Tallied t
  vacant : m.Vacant

/-- A session has a shadow whose byte counters are exact where those of `m` are, if nothing was
stored meanwhile or what is stored now fits in a word. -/
def Follows (σ : Session) (storeless : Bool) (m : Machine) : Prop :=
  ∃ m', σ.Shadow m' ∧ ∀ t, m.BytesExact t →
    (storeless = false → σ.world.storedBytes t < 2 ^ 64) → m'.BytesExact t

/-- What a table stored fitted in a word all along some operations. -/
def StoredFits (ops : List Operation) (t : TableId) : Prop :=
  ∀ before σ, before <+: ops → run before {} = some σ → σ.world.storedBytes t < 2 ^ 64

end Session

/-! ## Lemmas -/

/-! ### Runs -/

namespace Session

variable {σ σ' : Session} {op : Operation} {ops : List Operation}

theorem perform_eq_some_iff : σ.perform op = some σ' ↔ op.Allowed σ ∧ op.effect σ = σ' := by
  rw [perform, Option.ite_none_right_eq_some, Option.some_inj]

theorem run_cons_iff :
    run (op :: ops) σ = some σ' ↔ op.Allowed σ ∧ run ops (op.effect σ) = some σ' := by
  rw [run, perform]
  by_cases ha : op.Allowed σ
  · rw [if_pos ha, Option.bind_some]
    exact (and_iff_right ha).symm
  · rw [if_neg ha, Option.bind_none]
    exact ⟨nofun, fun h => absurd h.1 ha⟩

theorem run_append (ops ops' : List Operation) (σ : Session) :
    run (ops ++ ops') σ = (run ops σ).bind (run ops') := by
  induction ops generalizing σ with
  | nil => rfl
  | cons op rest ih =>
    rw [List.cons_append, run, run, Option.bind_assoc]
    exact congrArg _ (funext fun σ₁ => ih σ₁)

/-- What one more operation at the end keeps, every session keeps; the property may tell of the
operations. -/
theorem run_concat_induction {P : List Operation → Session → Prop} (hσ : P [] σ)
    (hstep : ∀ before op σ₁ σ₂, run before σ = some σ₁ → P before σ₁ → σ₁.perform op = some σ₂ →
      P (before ++ [op]) σ₂) (h : run ops σ = some σ') : P ops σ' := by
  induction ops using List.reverseRecOn generalizing σ' with
  | nil =>
    obtain rfl := Option.some.inj h
    exact hσ
  | append_singleton before op ih =>
    rw [run_append] at h
    obtain ⟨σ₁, h₁, h⟩ := Option.bind_eq_some_iff.1 h
    obtain ⟨σ₂, h₂, h⟩ := Option.bind_eq_some_iff.1 h
    obtain rfl := Option.some.inj h
    exact hstep before op σ₁ σ₂ h₁ (ih h₁) h₂

end Session

/-! ### What is in hand -/

section Tokens

variable (targets : Multiset Strategy) (handles : Multiset InstanceId)

theorem tokens_cons_table (t : TableId) :
    tokens (.table t ::ₘ targets) handles = tokens targets handles + ↑[Token.owner t] := by
  rw [tokens, Multiset.filterMap_cons_some Strategy.table? _ _ rfl, Multiset.map_cons,
    Multiset.cons_add, ← Multiset.singleton_add, add_comm]
  rfl

theorem tokens_cons_passthrough :
    tokens (.passthrough ::ₘ targets) handles = tokens targets handles := by
  rw [tokens, Multiset.filterMap_cons_none _ _ rfl]
  rfl

theorem tokens_add_handles (is : List InstanceId) :
    tokens targets (handles + ↑is) = tokens targets handles + ↑(is.map Token.handle) := by
  rw [tokens, Multiset.map_add, ← add_assoc, Multiset.map_coe]
  rfl

theorem tokens_cons_handle (i : InstanceId) :
    tokens targets (i ::ₘ handles) = tokens targets handles + ↑[Token.handle i] := by
  rw [← Multiset.singleton_add, add_comm]
  exact tokens_add_handles targets handles [i]

/-- Of some tokens the first is taken by itself. -/
theorem add_coe_cons (rest : Multiset Token) (x : Token) (l : List Token) :
    rest + ↑(x :: l) = rest + ↑l + ↑[x] := by
  rw [add_assoc, Multiset.coe_add]
  exact congrArg (rest + ·) (Multiset.coe_eq_coe.2 (List.perm_append_singleton x l).symm)

/-- No call is in progress. -/
theorem call?_of_mem_tokens {x : Token} (h : x ∈ tokens targets handles) : x.call? = none := by
  rcases Multiset.mem_add.1 h with h | h
  · obtain ⟨t, -, rfl⟩ := Multiset.mem_map.1 h
    rfl
  · obtain ⟨i, -, rfl⟩ := Multiset.mem_map.1 h
    rfl

end Tokens

/-! ### Shadows -/

/-- Nothing but the journal of a machine looks at the journal. -/
theorem Machine.Valid.withJournal {m : Machine} (hm : m.Valid) (j : Array Act) :
    ({ m with world := m.world.withJournal j } : Machine).Valid := by
  obtain ⟨⟨⟨h₁, h₂, h₃⟩, ⟨r₁, r₂, r₃, r₄, r₅, r₆, r₇⟩⟩, ⟨a₁, a₂, a₃, a₄⟩, ⟨i₁, i₂, i₃, i₄⟩⟩ := hm
  exact ⟨⟨⟨h₁, h₂, h₃⟩, ⟨r₁, r₂, r₃, r₄, r₅, r₆, r₇⟩⟩, ⟨a₁, a₂, a₃, a₄⟩, ⟨i₁, i₂, i₃, i₄⟩⟩

namespace Session

variable {σ σ' : Session} {op : Operation} {ops : List Operation} {m m' : Machine}
  {storeless : Bool}

theorem Shadow.withJournal (h : σ.Shadow m) (j : Array Act) :
    ({ σ with world := σ.world.withJournal j } : Session).Shadow
      { m with world := m.world.withJournal j } where
  world := congrArg (World.withJournal j) h.world
  hand := h.hand
  valid := h.valid.withJournal j
  prompt := ⟨h.prompt.owed, h.prompt.detached, h.prompt.fresh, h.prompt.removed⟩
  tallied t := by
    obtain ⟨h₁, h₂, h₃, h₄, h₅, h₆⟩ := h.tallied t
    exact ⟨h₁, h₂, h₃, h₄, h₅, h₆⟩
  vacant := h.vacant

theorem Follows.withJournal (h : σ.Follows storeless m) (j : Array Act) :
    ({ σ with world := σ.world.withJournal j } : Session).Follows storeless m := by
  obtain ⟨m', hm', hb⟩ := h
  exact ⟨_, hm'.withJournal j, hb⟩

/-- A session follows itself. -/
theorem Shadow.follows (h : σ.Shadow m) : σ.Follows storeless m := ⟨m, h, fun _ hb _ => hb⟩

theorem Follows.weaken (h : σ.Follows true m) : σ.Follows storeless m := by
  obtain ⟨m', hm', hb⟩ := h
  exact ⟨m', hm', fun t ht _ => hb t ht nofun⟩

/-- What a machine performs, a session may do. -/
theorem Shadow.of_performs (hσ : σ.Shadow m) {w : World} {hand : Multiset Token}
    {answers : List Answer} (h : m.Performs storeless w hand answers) (hw : σ'.world = w)
    (hh : tokens σ'.targets σ'.handles = hand) : σ'.Follows storeless m := by
  obtain ⟨l, m', hrun, hl, hworld, hhand, -⟩ := h
  obtain ⟨steps, hsteps⟩ := Machine.run_of_runPromptly hrun
  have hvalid := hσ.valid.of_run hsteps
  have hprompt := (hσ.prompt.of_run hσ.valid.sound hrun).2
  have hlast : ∀ s ∈ l.dropLast, s.gain = 0 := by
    cases storeless with
    | true => exact fun s hs => hl s (List.mem_of_mem_dropLast hs)
    | false => exact hl
  refine ⟨m', ⟨hworld.trans hw.symm, hhand.trans hh.symm, hvalid, hprompt,
    fun t => (hσ.tallied t).of_run hσ.valid.sound hsteps,
    hσ.vacant.of_run hσ.valid.sound hsteps⟩, fun t hb hfit => ?_⟩
  refine hb.runPromptly hσ.valid hrun hlast ?_
  rintro ⟨s, hs, hg⟩ hst ho
  cases storeless with
  | true => exact absurd (hl s hs) hg
  | false =>
    rw [hprompt.outstandingBytes_eq hvalid.sound ho hst, hworld, ← hw]
    exact hfit rfl

/-- A single step that owes and stores nothing. -/
theorem Shadow.of_step (hσ : σ.Shadow m) (s : Step) {rest : Multiset Token}
    (hh : tokens σ.targets σ.handles = rest + ↑s.needs) (ha : s.Allowed m.hand)
    (ho : s.owes m.world = none) (hg : s.gain = 0) (hw : σ'.world = (s.effect σ.world).world)
    (hh' : tokens σ'.targets σ'.handles = rest + ↑(s.effect σ.world).gains) :
    σ'.Follows true m := by
  have hstep := Machine.stepPromptly_eq_some (hσ.hand.trans hh) ha ho
  rw [← hσ.world] at hw hh'
  exact hσ.of_performs (.of_stepPromptly hstep (fun _ => hg) rfl) hw hh'

/-- A target is made, with the table that it needs. -/
theorem Shadow.ofMode (hσ : σ.Shadow m) (mode : ResolvedMode) (capacity : UInt64)
    (tracked : Bool) :
    let made := Strategy.ofMode mode capacity tracked σ.world
    ({ σ with world := made.2, targets := made.1 ::ₘ σ.targets } : Session).Follows true m := by
  have htable : ∀ k : Storage, ({ σ with
      world := (σ.world.newTable k capacity tracked).2
      targets := .table σ.world.tables.size ::ₘ σ.targets } : Session).Follows true m := fun k =>
    hσ.of_step (.newTable k capacity tracked) (add_zero _).symm trivial rfl rfl rfl
      (tokens_cons_table ..)
  cases mode with
  | passthrough =>
    have hσ' : ({ σ with targets := .passthrough ::ₘ σ.targets } : Session).Shadow m :=
      { hσ with hand := hσ.hand.trans (tokens_cons_passthrough ..).symm }
    exact hσ'.follows
  | reclaiming => exact htable .reclaiming
  | retaining => exact htable .retaining

theorem Shadow.share (hσ : σ.Shadow m) {s : Strategy} (hs : s ∈ σ.targets) :
    ((Operation.share s).effect σ).Follows true m := by
  cases s with
  | passthrough =>
    have hσ' : ((Operation.share .passthrough).effect σ).Shadow m :=
      { hσ with hand := hσ.hand.trans (tokens_cons_passthrough ..).symm }
    exact hσ'.follows
  | table t =>
    obtain ⟨w, targets, handles⟩ := σ
    obtain ⟨rest, rfl⟩ := Multiset.exists_cons_of_mem hs
    refine hσ.of_step (.share t) (tokens_cons_table ..) trivial rfl rfl rfl ?_
    show tokens (.table t ::ₘ .table t ::ₘ rest) handles = _
    rw [tokens_cons_table, tokens_cons_table, add_assoc]
    rfl

theorem Shadow.disown (hσ : σ.Shadow m) {s : Strategy} (hs : s ∈ σ.targets) :
    ((Operation.disown s).effect σ).Follows true m := by
  obtain ⟨w, targets, handles⟩ := σ
  obtain ⟨rest, rfl⟩ := Multiset.exists_cons_of_mem hs
  have herase : (s ::ₘ rest).erase s = rest := Multiset.erase_cons_head s rest
  cases s with
  | passthrough =>
    have hσ' : ((Operation.disown .passthrough).effect ⟨w, .passthrough ::ₘ rest, handles⟩).Shadow
        m := { hσ with
      hand := by
        show m.hand = tokens ((Strategy.passthrough ::ₘ rest).erase .passthrough) handles
        rw [herase, hσ.hand]
        exact tokens_cons_passthrough .. }
    exact hσ'.follows
  | table t =>
    have hidle : (Step.disown t).Allowed m.hand := .inr fun x hx => by
      rw [call?_of_mem_tokens _ _ (hσ.hand ▸ hx)]
      exact nofun
    have hhand := hσ.hand.trans (tokens_cons_table rest handles t)
    refine hσ.of_performs (Machine.disown_promptly hhand hidle) ?_ ?_
    · rw [hσ.world]
      rfl
    · show tokens ((Strategy.table t ::ₘ rest).erase (.table t)) handles = _
      rw [herase]

theorem Shadow.drop (hσ : σ.Shadow m) {i : InstanceId} (hi : i ∈ σ.handles) :
    ((Operation.drop i).effect σ).Follows true m := by
  obtain ⟨w, targets, handles⟩ := σ
  obtain ⟨rest, rfl⟩ := Multiset.exists_cons_of_mem hi
  refine hσ.of_performs (Machine.drop_promptly (hσ.hand.trans (tokens_cons_handle ..))) ?_ ?_
  · rw [hσ.world]
    rfl
  · show tokens targets ((i ::ₘ rest).erase i) = _
    rw [Multiset.erase_cons_head]

theorem Shadow.clone (hσ : σ.Shadow m) {i : InstanceId} (hi : i ∈ σ.handles) :
    ((Operation.clone i).effect σ).Follows true m := by
  obtain ⟨w, targets, handles⟩ := σ
  obtain ⟨rest, rfl⟩ := Multiset.exists_cons_of_mem hi
  refine hσ.of_step (.clone i) (tokens_cons_handle ..) trivial rfl rfl rfl ?_
  show tokens targets (i ::ₘ i ::ₘ rest) = _
  rw [tokens_cons_handle, tokens_cons_handle, add_assoc]
  rfl

theorem Shadow.value (hσ : σ.Shadow m) (text : String) :
    ((Operation.value text).effect σ).Follows true m :=
  hσ.of_step (.value text) (add_zero _).symm trivial rfl rfl rfl (tokens_cons_handle ..)

theorem Shadow.intern (hσ : σ.Shadow m) {s : Strategy} (f : Normalizer) {a : Argument}
    (hs : s ∈ σ.targets) (ha : ∀ i ∈ a.leftover, i ∈ σ.handles) :
    ((Operation.intern s f a).effect σ).Follows false m := by
  cases s with
  | passthrough =>
    -- A handle is handed back, and a text is made an instance.
    cases a with
    | text text =>
      have heffect : (Operation.intern .passthrough f (.text text)).effect σ =
          (Operation.value text).effect σ :=
        (Session.mk.injEq ..).mpr ⟨rfl, rfl, congrArg (_ ::ₘ ·) (tsub_zero _)⟩
      rw [heffect]
      exact (hσ.value text).weaken
    | handle i =>
      have hi : i ::ₘ (σ.handles - {i}) = σ.handles := by
        rw [Multiset.sub_singleton, Multiset.cons_erase (ha i rfl)]
      have heffect : (Operation.intern .passthrough f (.handle i)).effect σ = σ :=
        (Session.mk.injEq ..).mpr ⟨rfl, rfl, hi⟩
      rw [heffect]
      exact hσ.follows
  | table t =>
    obtain ⟨w, targets, handles⟩ := σ
    obtain ⟨rest, rfl⟩ := Multiset.exists_cons_of_mem hs
    obtain ⟨left, rfl⟩ : ∃ left, handles = left + ↑a.leftover.toList := by
      cases a with
      | text text => exact ⟨handles, (add_zero _).symm⟩
      | handle i =>
        obtain ⟨left, rfl⟩ := Multiset.exists_cons_of_mem (ha i rfl)
        exact ⟨left, (Multiset.singleton_add i left).symm.trans (add_comm _ _)⟩
    have hhand : m.hand = tokens rest left + ↑(Step.begin t f a).needs := by
      rw [hσ.hand, tokens_cons_table, tokens_add_handles]
      exact (add_coe_cons _ _ _).symm
    have hleft : left + ↑a.leftover.toList - (↑a.leftover.toList : Multiset InstanceId) = left :=
      Multiset.add_sub_cancel_right ..
    refine hσ.of_performs (Machine.intern_promptly hhand) ?_ ?_
    · rw [hσ.world]
      rfl
    · show tokens (.table t ::ₘ rest) (_ ::ₘ (left + _ - _)) = _
      rw [hleft, tokens_cons_handle, tokens_cons_table, hσ.world, add_assoc]
      rfl

theorem Shadow.lookup (hσ : σ.Shadow m) {s : Strategy} (key : String) (hs : s ∈ σ.targets) :
    ((Operation.lookup s key).effect σ).Follows true m := by
  cases s with
  | passthrough =>
    have heffect : (Operation.lookup .passthrough key).effect σ = σ :=
      (Session.mk.injEq ..).mpr ⟨rfl, rfl, zero_add _⟩
    rw [heffect]
    exact hσ.follows
  | table t =>
    obtain ⟨w, targets, handles⟩ := σ
    obtain ⟨rest, rfl⟩ := Multiset.exists_cons_of_mem hs
    have hhand : tokens (.table t ::ₘ rest) handles = tokens rest handles + ↑[Token.owner t] :=
      tokens_cons_table ..
    refine hσ.of_performs (Machine.lookup_promptly key (hσ.hand.trans hhand)) ?_ ?_
    · rw [hσ.world]
      rfl
    · show tokens (.table t ::ₘ rest) (↑(w.lookup t key).1.toList + handles) = _
      rw [add_comm, tokens_add_handles, hhand, add_right_comm, hσ.world]
      exact (add_coe_cons _ _ _).symm

theorem Shadow.find (hσ : σ.Shadow m) {n : Interner} (text : String) (hs : n.strategy ∈ σ.targets) :
    ((Operation.find n text).effect σ).Follows true m := by
  obtain ⟨s, f⟩ := n
  cases s with
  | passthrough => exact hσ.lookup text hs
  | table t =>
    -- The interner normalizes, and then its table is asked.
    have hσ' := hσ.withJournal (σ.world.note .normalize).journal
    obtain ⟨m', hm', hb⟩ := hσ'.lookup (f.key text) hs
    exact ⟨m', hm', hb⟩

theorem Shadow.ask (hσ : σ.Shadow m) (s : Strategy) (q : Query) :
    ((Operation.ask s q).effect σ).Follows true m := by
  cases s with
  | passthrough => cases q <;> exact hσ.follows
  | table t =>
    cases q <;>
      exact hσ.follows.withJournal ((σ.world.note (.lock t)).note (.unlock t)).journal

/-- Every operation leaves a session with a shadow. -/
theorem Shadow.perform (hσ : σ.Shadow m) (h : σ.perform op = some σ') :
    σ'.Follows (!op.isIntern) m := by
  obtain ⟨ha, rfl⟩ := perform_eq_some_iff.1 h
  cases op with
  | plain mode => exact (hσ.ofMode mode 0 false).withJournal _
  | configured c caps f =>
    simp only [Operation.effect, Interner.withNormalizer, Strategy.select]
    cases c.resolve caps with
    | error => exact hσ.follows
    | ok mode => exact (hσ.ofMode mode c.initialCapacity c.trackMemory).withJournal _
  | bare c caps =>
    simp only [Operation.effect, Strategy.select]
    cases c.resolve caps with
    | error => exact hσ.follows
    | ok mode => exact hσ.ofMode mode c.initialCapacity c.trackMemory
  | share s => exact hσ.share ha
  | disown s => exact hσ.disown ha
  | value text => exact hσ.value text
  | clone i => exact hσ.clone ha
  | drop i => exact hσ.drop ha
  | intern s f a => exact hσ.intern f ha.1 ha.2
  | lookup s key => exact hσ.lookup key ha
  | find n text => exact hσ.find text ha
  | ask s q => exact hσ.ask s q

/-- The machine before anything was made is the shadow of a session where nothing was. -/
theorem shadow_empty : Shadow {} {} :=
  ⟨rfl, rfl, Machine.valid_empty, Machine.prompt_empty, Machine.tallied_empty, Machine.vacant_empty⟩

/-- Every session has a shadow, with exact byte counters where what was stored always fitted. -/
theorem shadow_of_run (h : run ops {} = some σ) :
    ∃ m, σ.Shadow m ∧ ∀ t, StoredFits ops t → m.BytesExact t := by
  refine run_concat_induction (P := fun ops σ => ∃ m, σ.Shadow m ∧
    ∀ t, StoredFits ops t → m.BytesExact t) ⟨{}, shadow_empty, fun _ _ _ => rfl⟩ ?_ h
  rintro before op σ₁ σ₂ hbefore ⟨m, hm, hb⟩ hop
  obtain ⟨m', hm', hb'⟩ := hm.perform hop
  have hrun : run (before ++ [op]) {} = some σ₂ := by
    rw [run_append, hbefore]
    exact (Option.bind_fun_some _).trans hop
  refine ⟨m', hm', fun t hfit => hb' t (hb t fun b σ' hpre hrun' => ?_) fun _ => ?_⟩
  · exact hfit b σ' (hpre.trans (List.prefix_append before [op])) hrun'
  · exact hfit _ σ₂ (List.prefix_refl _) hrun

end Session

end Interning
