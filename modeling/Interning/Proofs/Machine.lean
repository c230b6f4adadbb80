import Interning.Proofs.World.Steps
import Mathlib.Algebra.BigOperators.Group.Multiset.Basic
import Mathlib.Data.Multiset.Filter

/-!
# Threads at work

A `Machine` is a world together with what the clients and threads of a process have in hand there:
owners, handles, calls in progress, reclamations.  A `Step` takes some of these tokens out of the
hand, does one piece of an operation, and puts other tokens in.  Between two pieces of one operation
any other steps may stand, so the runs of a machine are all the interleavings of intern calls,
look-ups, clones, releases and reclamations, with tables made, shared and given up in between.

A handle that a call does not need is a handle in the hand like any other; the step that releases
it may come at any time.

    m.step s = some m' → the hand of m has what s needs, and m' has what s gains instead
                                                                          (exists_of_step)
    what every step keeps, every run keeps                                (run_induction)
-/

namespace Interning

/-! ## Algorithm -/

/-- Something that a client or a thread has in hand. -/
inductive Token
  /-- An owner of a table. -/
  | owner (t : TableId)
  /-- A handle to an instance. -/
  | handle (i : InstanceId)
  /-- A call whose key is known. -/
  | called (c : Call)
  /-- A call that is past the look under the read lock. -/
  | missed (c : Call)
  /-- A call past its last lock, which is still to be counted. -/
  | entered (c : Call) (o : Outcome)
  /-- A reclamation before its lock. -/
  | owed (r : Reclamation)
  /-- A reclamation past its lock, which is still to be counted. -/
  | detached (r : Reclamation) (removed : Bool)
  deriving DecidableEq

namespace Token

def handles : Token → List InstanceId
  | handle i => [i]
  | called c | missed c => c.argument.leftover.toList
  | entered _ o => [o.canonical]
  | _ => []

/-- The tables that a token is an owner of; a reclamation keeps its table. -/
def owners : Token → List TableId
  | owner t => [t]
  | owed r | detached r _ => [r.table]
  | _ => []

/-- The call in progress that a token stands for. -/
def call? : Token → Option Call
  | called c | missed c | entered c _ => some c
  | _ => none

/-- The call past its last lock that a token stands for. -/
def entered? : Token → Option (Call × Outcome)
  | entered c o => some (c, o)
  | _ => none

/-- The reclamation before its lock that a token stands for. -/
def owed? : Token → Option Reclamation
  | owed r => some r
  | _ => none

/-- The reclamation past its lock that a token stands for. -/
def detached? : Token → Option (Reclamation × Bool)
  | detached r removed => some (r, removed)
  | _ => none

end Token

/-- What a call or a look-up answers; it is settled under the lock. -/
inductive Answer
  | interned (c : Call) (o : Outcome)
  | lookedUp (t : TableId) (key : String) (found : Option InstanceId)
  deriving DecidableEq

namespace Answer

def table : Answer → TableId
  | interned c _ => c.table
  | lookedUp t _ _ => t

def key : Answer → String
  | interned c _ => c.key
  | lookedUp _ k _ => k

def instance? : Answer → Option InstanceId
  | interned _ o => some o.canonical
  | lookedUp _ _ found => found

end Answer

/-- One piece of an operation. -/
inductive Step
  /-- A client makes a table. -/
  | newTable (storage : Storage) (capacity : UInt64) (tracked : Bool)
  /-- A client makes one more owner of a table. -/
  | share (t : TableId)
  /-- A client gives up an owner of a table. -/
  | disown (t : TableId)
  /-- A client makes an instance that is in no table. -/
  | value (text : String)
  /-- A client makes one more handle. -/
  | clone (i : InstanceId)
  /-- A client or a thread releases a handle. -/
  | release (i : InstanceId)
  /-- A thread asks a normalizer for the key to look up. -/
  | normalize
  /-- A thread looks a key up. -/
  | lookup (t : TableId) (key : String)
  /-- A thread begins a call. -/
  | begin (t : TableId) (f : Normalizer) (a : Argument)
  /-- A call looks under the read lock. -/
  | check (c : Call)
  /-- A call looks for the last time and stores an instance if there is none. -/
  | enter (c : Call)
  /-- A call is counted and answers. -/
  | record (c : Call) (o : Outcome)
  /-- A reclamation looks at its entry under the lock. -/
  | detach (r : Reclamation)
  /-- A reclamation is counted. -/
  | settle (r : Reclamation) (removed : Bool)

/-- What a step does besides taking the tokens that it needs. -/
structure Effect where
  world : World
  /-- The tokens it puts in the hand. -/
  gains : List Token
  /-- What is answered in it. -/
  answer : Option Answer := none

/-- The effect of answering a call: the caller will have the handle to the canonical instance, and
the handle that the call does not need is there to be released. -/
def Call.answered (c : Call) (o : Outcome) (w : World) : Effect :=
  ⟨w, .entered c o :: (c.discarded o).toList.map .handle, some (.interned c o)⟩

namespace Step

/-- The tokens that a step takes out of the hand. -/
def needs : Step → List Token
  | newTable _ _ _ | value _ | normalize => []
  | share t | disown t | lookup t _ => [.owner t]
  | clone i | release i => [.handle i]
  | begin t _ a => .owner t :: a.leftover.toList.map .handle
  | check c => [.called c]
  | enter c => [.missed c]
  | record c o => [.entered c o]
  | detach r => [.owed r]
  | settle r removed => [.detached r removed]

/-- A call borrows an owner of its table, so the last owner cannot be given up meanwhile. -/
def Allowed (hand : Multiset Token) : Step → Prop
  | disown t => 2 ≤ hand.count (.owner t) ∨ ∀ x ∈ hand, x.call?.map Call.table ≠ some t
  | _ => True

instance (hand : Multiset Token) (s : Step) : Decidable (s.Allowed hand) := by
  cases s <;> unfold Allowed <;> infer_instance

/-- What a step does to the world, puts in the hand and answers. -/
def effect (w : World) : Step → Effect
  | newTable storage capacity tracked =>
    let (t, w) := w.newTable storage capacity tracked
    ⟨w, [.owner t], none⟩
  | share t => ⟨w.addOwner t, [.owner t, .owner t], none⟩
  | disown t =>
    let (is, w) := w.abandon t
    ⟨w, is.map .handle, none⟩
  | value text =>
    let (i, w) := w.create text
    ⟨w, [.handle i], none⟩
  | clone i => ⟨w.addHandle i, [.handle i, .handle i], none⟩
  | release i =>
    let (owed, w) := w.release i
    ⟨w, owed.toList.map .owed, none⟩
  | normalize => ⟨w.note .normalize, [], none⟩
  | lookup t key =>
    let (found, w) := w.lookup t key
    ⟨w, .owner t :: found.toList.map .handle, some (.lookedUp t key found)⟩
  | begin t f a =>
    let (c, w) := Call.begin t f a w
    ⟨w, [.owner t, .called c], none⟩
  | check c =>
    match c.check w with
    | (some o, w) => c.answered o w
    | (none, w) => ⟨w, [.missed c], none⟩
  | enter c =>
    let (o, w) := c.enter w
    c.answered o w
  | record c o => ⟨c.record o w, [.handle o.canonical], none⟩
  | detach r =>
    let (removed, w) := r.detach w
    ⟨w, [.detached r removed], none⟩
  | settle r removed => ⟨r.settle removed w, [], none⟩

/-- The call that a step counts. -/
def recorded : Step → Option (Call × Outcome)
  | record c o => some (c, o)
  | _ => none

/-- The reclamation that a step counts. -/
def settled : Step → Option (Reclamation × Bool)
  | settle r removed => some (r, removed)
  | _ => none

end Step

/-- A world and what clients and threads have in hand there, with the history so far. -/
structure Machine where
  world : World := {}
  hand : Multiset Token := 0
  /-- What was answered, the last answer first. -/
  answers : List Answer := []
  /-- The calls that were counted, the last one first. -/
  recorded : List (Call × Outcome) := []
  /-- The reclamations that are done, the last one first; each with whether it removed its entry. -/
  settled : List (Reclamation × Bool) := []

namespace Machine

/-- The machine after a step, where `rest` is what the step leaves in the hand. -/
def next (s : Step) (rest : Multiset Token) (m : Machine) : Machine where
  world := (s.effect m.world).world
  hand := rest + ↑(s.effect m.world).gains
  answers := (s.effect m.world).answer.toList ++ m.answers
  recorded := s.recorded.toList ++ m.recorded
  settled := s.settled.toList ++ m.settled

/-- Takes a step, if the hand has what it needs. -/
def step (s : Step) (m : Machine) : Option Machine :=
  if ↑s.needs ≤ m.hand ∧ s.Allowed m.hand then some (m.next s (m.hand - ↑s.needs)) else none

/-- Takes steps in order, if each of them can be taken. -/
def run : List Step → Machine → Option Machine
  | [], m => some m
  | s :: rest, m => (m.step s).bind (run rest)

/-- A run meets only machines that have a property. -/
def Throughout (P : Machine → Prop) : List Step → Machine → Prop
  | [], m => P m
  | s :: rest, m => P m ∧ ∀ m' ∈ m.step s, Throughout P rest m'

instance decidableThroughout (P : Machine → Prop) [DecidablePred P] :
    (steps : List Step) → (m : Machine) → Decidable (Throughout P steps m)
  | [], m => inferInstanceAs (Decidable (P m))
  | s :: rest, m =>
    match h : m.step s with
    | none => decidable_of_iff (P m) ⟨fun hm => ⟨hm, by simp [h]⟩, And.left⟩
    | some m' =>
      have := decidableThroughout P rest m'
      decidable_of_iff (P m ∧ Throughout P rest m') (by simp [Throughout, h])

/-- The calls past their last lock that are still to be counted. -/
def entered (m : Machine) : Multiset (Call × Outcome) := m.hand.filterMap Token.entered?

/-- The reclamations that have not come to their lock yet. -/
def owed (m : Machine) : Multiset Reclamation := m.hand.filterMap Token.owed?

/-- The reclamations past their lock that are still to be counted. -/
def detached (m : Machine) : Multiset (Reclamation × Bool) := m.hand.filterMap Token.detached?

/-! ## Lemmas -/

end Machine

/-! ### Effects -/

namespace Step

variable {w : World}

theorem effect_disown (t : TableId) (w : World) :
    (disown t).effect w =
      if (w.tableAt t).owners ≤ 1 ∧ (w.tableAt t).storage = .retaining then
        ⟨(w.removeOwner t).modifyEntries t fun _ => ∅,
          (w.entries t).values.reverse.map .handle, none⟩
      else ⟨w.removeOwner t, [], none⟩ := by
  simp only [effect, World.abandon_eq]
  split <;> rfl

theorem effect_release (i : InstanceId) (w : World) :
    (∃ r j, w.handles i = 1 ∧ w.registration i = some r ∧ w.isOwned r.table = true ∧
      (release i).effect w = ⟨((w.loseHandle i).addOwner r.table).withJournal j,
        [.owed ⟨r.table, r.key, i⟩], none⟩) ∨
    ((w.handles i = 1 → ∀ r, w.registration i = some r → w.isOwned r.table = false) ∧
      ∃ j, (release i).effect w = ⟨(w.loseHandle i).withJournal j, [], none⟩) := by
  rcases World.release_cases i w with ⟨r, j, hi, hr, ho, he⟩ | ⟨hn, j, he⟩
  · exact .inl ⟨r, j, hi, hr, ho, by simp only [effect, he]; rfl⟩
  · exact .inr ⟨hn, j, by simp only [effect, he]; rfl⟩

theorem effect_lookup (t : TableId) (key : String) (w : World) :
    ∃ j, (lookup t key).effect w = ⟨(w.addHandle? (w.live? t key)).withJournal j,
      .owner t :: (w.live? t key).toList.map .handle,
      some (.lookedUp t key (w.live? t key))⟩ := by
  obtain ⟨j, he⟩ := w.lookup_eq t key
  exact ⟨j, by simp only [effect, he]⟩

theorem effect_check (c : Call) (w : World) :
    ((w.tableAt c.table).storage = .retaining ∧ ∃ i j, w.live? c.table c.key = some i ∧
      (check c).effect w = c.answered (.hit i) ((w.addHandle i).withJournal j)) ∨
    (((w.tableAt c.table).storage = .reclaiming ∨ w.live? c.table c.key = none) ∧
      ∃ j, (check c).effect w = ⟨w.withJournal j, [.missed c], none⟩) := by
  rcases c.check_eq w with ⟨hs, i, j, hi, he⟩ | ⟨hs, j, he⟩
  · exact .inl ⟨hs, i, j, hi, by simp only [effect, he]⟩
  · exact .inr ⟨hs, j, by simp only [effect, he]⟩

theorem effect_enter_of_some {c : Call} {i : InstanceId} (h : w.live? c.table c.key = some i) :
    ∃ j, (enter c).effect w = c.answered (.hit i) ((w.addHandle i).withJournal j) := by
  obtain ⟨j, he⟩ := Call.enter_of_some h
  exact ⟨j, by simp only [effect, he]⟩

theorem effect_enter_of_none {c : Call} (h : w.live? c.table c.key = none) :
    ∃ x rejected w₁ j, c.Provides w x rejected w₁ ∧
      (enter c).effect w =
        c.answered (.stored x ((w.entries c.table).contains c.key) rejected)
          ((w₁.install c.table c.key x).withJournal j) := by
  obtain ⟨x, rejected, w₁, j, hp, he⟩ := Call.enter_of_none h
  exact ⟨x, rejected, w₁, j, hp, by simp only [effect, he]⟩

theorem effect_detach_of_own {r : Reclamation}
    (h : (w.entries r.table).get? r.key = some r.gone) :
    ∃ j, (detach r).effect w =
      ⟨(w.modifyEntries r.table fun m => m.erase r.key).withJournal j,
        [.detached r true], none⟩ := by
  obtain ⟨j, he⟩ := r.detach_eq w
  rw [if_pos h] at he
  exact ⟨j, by simp only [effect, he]⟩

theorem effect_detach_of_other {r : Reclamation}
    (h : (w.entries r.table).get? r.key ≠ some r.gone) :
    ∃ j, (detach r).effect w = ⟨w.withJournal j, [.detached r false], none⟩ := by
  obtain ⟨j, he⟩ := r.detach_eq w
  rw [if_neg h] at he
  exact ⟨j, by simp only [effect, he]⟩

/-! What the look of a reclamation changes is its own entry, and nothing else. -/

theorem get?_detach (w : World) (r : Reclamation) (t : TableId) (k : String) (i : InstanceId) :
    (((detach r).effect w).world.entries t).get? k = some i ↔
      (w.entries t).get? k = some i ∧ (⟨t, k, i⟩ : Reclamation) ≠ r := by
  by_cases h : (w.entries r.table).get? r.key = some r.gone
  · obtain ⟨j, he⟩ := effect_detach_of_own h
    rw [he]
    show ((w.modifyEntries r.table fun m => m.erase r.key).entries t).get? k = some i ↔ _
    rw [World.entries_modifyEntries (World.lt_size_of_entry h)]
    by_cases ht : t = r.table
    · subst ht
      rw [if_pos rfl, KeyMap.get?_erase]
      by_cases hk : k = r.key
      · subst hk
        rw [if_pos rfl, h]
        constructor
        · intro hc
          cases hc
        · rintro ⟨hi, hne⟩
          obtain rfl := Option.some.inj hi
          exact absurd rfl hne
      · rw [if_neg hk]
        exact ⟨fun hi => ⟨hi, fun hc => hk (congrArg Reclamation.key hc)⟩, fun hi => hi.1⟩
    · rw [if_neg ht]
      exact ⟨fun hi => ⟨hi, fun hc => ht (congrArg Reclamation.table hc)⟩, fun hi => hi.1⟩
  · obtain ⟨j, he⟩ := effect_detach_of_other h
    rw [he]
    refine ⟨fun hi => ⟨hi, ?_⟩, fun hi => hi.1⟩
    rintro rfl
    exact h hi

theorem instances_detach (w : World) (r : Reclamation) :
    ((detach r).effect w).world.instances = w.instances := by
  by_cases h : (w.entries r.table).get? r.key = some r.gone
  · obtain ⟨j, he⟩ := effect_detach_of_own h
    rw [he]
    rfl
  · obtain ⟨j, he⟩ := effect_detach_of_other h
    rw [he]
    rfl

theorem tableAt_detach (w : World) (r : Reclamation) (t : TableId) :
    ∃ e, ((detach r).effect w).world.tableAt t = { w.tableAt t with entries := e } := by
  by_cases h : (w.entries r.table).get? r.key = some r.gone
  · obtain ⟨j, he⟩ := effect_detach_of_own h
    rw [he, World.tableAt_withJournal, World.modifyEntries, World.tableAt_modifyTable]
    split
    · exact ⟨_, rfl⟩
    · exact ⟨_, rfl⟩
  · obtain ⟨j, he⟩ := effect_detach_of_other h
    rw [he]
    exact ⟨_, rfl⟩

end Step

/-! ### Runs -/

namespace Machine

variable {m m' : Machine} {s : Step}

theorem exists_of_step (h : m.step s = some m') :
    ∃ rest, m.hand = rest + ↑s.needs ∧ s.Allowed m.hand ∧ m' = m.next s rest := by
  unfold step at h
  split at h
  · next hs =>
    refine ⟨m.hand - ↑s.needs, (tsub_add_cancel_of_le hs.1).symm, hs.2, ?_⟩
    exact (Option.some.inj h).symm
  · cases h

theorem mem_of_needs {rest : Multiset Token} (hh : m.hand = rest + ↑s.needs) :
    ∀ x ∈ s.needs, x ∈ m.hand := fun _ hx =>
  hh ▸ Multiset.mem_add.2 (.inr (Multiset.mem_coe.2 hx))

theorem step_eq_some {rest : Multiset Token} (h : m.hand = rest + ↑s.needs)
    (ha : s.Allowed m.hand) : m.step s = some (m.next s rest) := by
  have hle : (↑s.needs : Multiset Token) ≤ m.hand := h ▸ Multiset.le_add_left _ _
  have hsub : m.hand - ↑s.needs = rest := by rw [h, Multiset.add_sub_cancel_right]
  rw [step, if_pos ⟨hle, ha⟩, hsub]

/-- What every step of a list keeps, the run of the list keeps. -/
theorem run_induction {P : Machine → Prop} {steps : List Step}
    (hstep : ∀ s ∈ steps, ∀ m m', P m → m.step s = some m' → P m') (hm : P m)
    (h : run steps m = some m') : P m' := by
  induction steps generalizing m with
  | nil =>
    obtain rfl := Option.some.inj h
    exact hm
  | cons s rest ih =>
    obtain ⟨m₁, h₁, h⟩ := Option.bind_eq_some_iff.1 h
    exact ih (fun s hs => hstep s (List.mem_cons_of_mem _ hs))
      (hstep s List.mem_cons_self m m₁ hm h₁) h

theorem Throughout.head {P : Machine → Prop} {steps : List Step} (h : Throughout P steps m) :
    P m := by
  cases steps with
  | nil => exact h
  | cons => exact h.1

/-- What every step between machines that have a property keeps, a run keeps that meets no others.
-/
theorem throughout_induction {P Q : Machine → Prop} {steps : List Step}
    (hstep : ∀ s m m', Q m → P m' → m.step s = some m' → Q m') (hm : Q m)
    (hP : Throughout P steps m) (h : run steps m = some m') : Q m' := by
  induction steps generalizing m with
  | nil =>
    obtain rfl := Option.some.inj h
    exact hm
  | cons s rest ih =>
    obtain ⟨m₁, h₁, h⟩ := Option.bind_eq_some_iff.1 h
    have hP₁ := hP.2 m₁ h₁
    exact ih (hstep s m m₁ hm hP₁.head h₁) hP₁ h

theorem Throughout.append {P : Machine → Prop} {steps steps' : List Step}
    (h : Throughout P steps m) (hrun : run steps m = some m') (h' : Throughout P steps' m') :
    Throughout P (steps ++ steps') m := by
  induction steps generalizing m with
  | nil =>
    obtain rfl := Option.some.inj hrun
    exact h'
  | cons s rest ih =>
    obtain ⟨m₁, h₁, hrun⟩ := Option.bind_eq_some_iff.1 hrun
    refine ⟨h.1, fun m₂ h₂ => ?_⟩
    obtain rfl := Option.some.inj (h₁.symm.trans h₂)
    exact ih (h.2 _ h₁) hrun

theorem throughout_of_forall {P : Machine → Prop} {steps : List Step} (hP : ∀ m, P m) :
    Throughout P steps m := by
  induction steps generalizing m with
  | nil => exact hP m
  | cons s rest ih => exact ⟨hP m, fun _ _ => ih⟩

theorem Throughout.and {P Q : Machine → Prop} {steps : List Step} (h : Throughout P steps m)
    (h' : Throughout Q steps m) : Throughout (fun x => P x ∧ Q x) steps m := by
  induction steps generalizing m with
  | nil => exact ⟨h, h'⟩
  | cons s rest ih => exact ⟨⟨h.1, h'.1⟩, fun m₁ h₁ => ih (h.2 m₁ h₁) (h'.2 m₁ h₁)⟩

theorem run_append (steps steps' : List Step) (m : Machine) :
    run (steps ++ steps') m = (run steps m).bind (run steps') := by
  induction steps generalizing m with
  | nil => rfl
  | cons s rest ih =>
    rw [List.cons_append, run, run, Option.bind_assoc]
    exact congrArg _ (funext fun m₁ => ih m₁)

/-- What one more step at the end keeps, every run keeps; the property may tell of the steps. -/
theorem run_concat_induction {P : List Step → Machine → Prop} {steps : List Step} (hm : P [] m)
    (hstep : ∀ before s m₁ m₂, run before m = some m₁ → P before m₁ → m₁.step s = some m₂ →
      P (before ++ [s]) m₂) (h : run steps m = some m') : P steps m' := by
  induction steps using List.reverseRecOn generalizing m' with
  | nil =>
    obtain rfl := Option.some.inj h
    exact hm
  | append_singleton before s ih =>
    rw [run_append] at h
    obtain ⟨m₁, h₁, h⟩ := Option.bind_eq_some_iff.1 h
    obtain ⟨m₂, h₂, h⟩ := Option.bind_eq_some_iff.1 h
    obtain rfl := Option.some.inj h
    exact hstep before s m₁ m₂ h₁ (ih h₁) h₂

end Machine

end Interning
