import Interning.Proofs.Machine
import Mathlib.Tactic.Abel

/-!
# Which tokens come and go

Of the tokens that stand for work to be done, each kind is put in the hand by one step and taken out
by another:

    owed by the release of a last handle, and taken by its detach       (owed_gains, owed_needs)
    detached by a detach, and taken by its settle               (detached_gains, detached_needs)
    entered by a call that answers, and taken by its record       (entered_gains, entered_needs)

So a reclamation, once owed, is either still owed or past its lock    (reclamations_step)
and a call, once answered, is either counted or still to be counted   (calls_step)
-/

namespace Interning

/-! ## Algorithm -/

/-- The call that an answer is given to. -/
def Answer.interned? : Answer → Option (Call × Outcome)
  | interned c o => some (c, o)
  | lookedUp _ _ _ => none

namespace Step

/-- The calls that a step answers. -/
def interns (s : Step) (w : World) : List (Call × Outcome) :=
  (s.effect w).answer.toList.filterMap Answer.interned?

/-- The reclamation that a step makes due. -/
def owes (s : Step) (w : World) : Option Reclamation :=
  match s with
  | release i => (w.release i).1
  | _ => none

/-- The reclamation whose entry a step looks at. -/
def detaching : Step → Option Reclamation
  | detach r => some r
  | _ => none

/-- The reclamation whose entry a step looks at, and whether it takes the entry away. -/
def detaches (s : Step) (w : World) : Option (Reclamation × Bool) :=
  s.detaching.map fun r => (r, (r.detach w).1)

end Step

namespace Machine

/-- The reclamations past their lock so far, those counted and those still to be counted. -/
def spent (m : Machine) : Multiset (Reclamation × Bool) := m.detached + ↑m.settled

/-- All reclamations so far: those owed and those past their lock. -/
def reclamations (m : Machine) : Multiset Reclamation := m.owed + m.spent.map Prod.fst

def interned (m : Machine) : List (Call × Outcome) := m.answers.filterMap Answer.interned?

end Machine

/-! ## Lemmas -/

namespace Step

variable {β : Type} (s : Step) (w : World)

theorem filterMap_map_handle {f : Token → Option β} (hf : ∀ i, f (.handle i) = none)
    (is : List InstanceId) : (is.map Token.handle).filterMap f = [] := by
  rw [List.filterMap_map, List.filterMap_eq_nil_iff]
  exact fun i _ => hf i

theorem owed_needs : s.needs.filterMap Token.owed? = s.detaching.toList := by
  cases s <;> simp [needs, Token.owed?, detaching]

theorem owed_gains : (s.effect w).gains.filterMap Token.owed? = (s.owes w).toList := by
  cases s with
  | check c =>
    rcases effect_check c w with ⟨-, i, j, -, he⟩ | ⟨-, j, he⟩ <;>
      simp [owes, he, Call.answered, Token.owed?]
  | release i =>
    show ((w.release i).1.toList.map Token.owed).filterMap Token.owed? = _
    rw [List.filterMap_map]
    exact List.filterMap_some
  | _ => simp [owes, effect, Call.answered, Token.owed?]

theorem detaches_detach (r : Reclamation) : (detach r).detaches w =
    some (r, decide ((w.entries r.table).get? r.key = some r.gone)) := by
  rw [← r.detach_fst]
  rfl

theorem detached_needs : s.needs.filterMap Token.detached? = s.settled.toList := by
  cases s <;> simp [needs, Token.detached?, settled]

theorem detached_gains : (s.effect w).gains.filterMap Token.detached? = (s.detaches w).toList := by
  cases s with
  | check c =>
    rcases effect_check c w with ⟨-, i, j, -, he⟩ | ⟨-, j, he⟩ <;>
      simp [detaches, detaching, he, Call.answered, Token.detached?]
  | _ => simp [detaches, detaching, effect, Call.answered, Token.detached?]

theorem entered_needs : s.needs.filterMap Token.entered? = s.recorded.toList := by
  cases s <;> simp [needs, Token.entered?, recorded]

theorem entered_gains : (s.effect w).gains.filterMap Token.entered? = s.interns w := by
  cases s with
  | check c =>
    rcases effect_check c w with ⟨-, i, j, -, he⟩ | ⟨-, j, he⟩ <;>
      simp [interns, he, Call.answered, Token.entered?, Answer.interned?]
  | lookup t key => exact filterMap_map_handle (fun _ => rfl) _
  | _ => simp [interns, effect, Call.answered, Token.entered?, Answer.interned?]

end Step

namespace Machine

variable {m m' : Machine} {s : Step} {rest : Multiset Token}

theorem filterMap_hand {β : Type} (f : Token → Option β) (hh : m.hand = rest + ↑s.needs) :
    m.hand.filterMap f = rest.filterMap f + ↑(s.needs.filterMap f) := by
  rw [hh, Multiset.filterMap_add, Multiset.filterMap_coe]

theorem filterMap_next {β : Type} (f : Token → Option β) (s : Step) (rest : Multiset Token)
    (m : Machine) : (m.next s rest).hand.filterMap f =
      rest.filterMap f + ↑((s.effect m.world).gains.filterMap f) := by
  show (rest + ↑(s.effect m.world).gains).filterMap f = _
  rw [Multiset.filterMap_add, Multiset.filterMap_coe]

/-- What is owed changes when a last handle is released and when an entry is looked at. -/
theorem owed_step (h : m.step s = some m') :
    m'.owed + ↑s.detaching.toList = m.owed + ↑(s.owes m.world).toList := by
  obtain ⟨rest, hh, -, rfl⟩ := exists_of_step h
  rw [owed, owed, filterMap_hand _ hh, filterMap_next, add_right_comm, Step.owed_needs,
    Step.owed_gains]

theorem detached_step (h : m.step s = some m') :
    m'.detached + ↑s.settled.toList = m.detached + ↑(s.detaches m.world).toList := by
  obtain ⟨rest, hh, -, rfl⟩ := exists_of_step h
  rw [detached, detached, filterMap_hand _ hh, filterMap_next, Step.detached_needs,
    Step.detached_gains, add_right_comm]

theorem entered_step (h : m.step s = some m') :
    m'.entered + ↑s.recorded.toList = m.entered + ↑(s.interns m.world) := by
  obtain ⟨rest, hh, -, rfl⟩ := exists_of_step h
  rw [entered, entered, filterMap_hand _ hh, filterMap_next, add_right_comm, Step.entered_needs,
    Step.entered_gains]

/-- What a step counts was to be counted. -/
theorem recorded_le_entered (h : m.step s = some m') : ↑s.recorded.toList ≤ m.entered := by
  obtain ⟨rest, hh, -, -⟩ := exists_of_step h
  rw [entered, filterMap_hand _ hh, Step.entered_needs]
  exact Multiset.le_add_left _ _

theorem settled_le_detached (h : m.step s = some m') : ↑s.settled.toList ≤ m.detached := by
  obtain ⟨rest, hh, -, -⟩ := exists_of_step h
  rw [detached, filterMap_hand _ hh, Step.detached_needs]
  exact Multiset.le_add_left _ _

theorem settled_step (h : m.step s = some m') : m'.settled = s.settled.toList ++ m.settled := by
  obtain ⟨rest, -, -, rfl⟩ := exists_of_step h
  rfl

theorem recorded_step (h : m.step s = some m') : m'.recorded = s.recorded.toList ++ m.recorded := by
  obtain ⟨rest, -, -, rfl⟩ := exists_of_step h
  rfl

theorem answers_step (h : m.step s = some m') :
    m'.answers = (s.effect m.world).answer.toList ++ m.answers := by
  obtain ⟨rest, -, -, rfl⟩ := exists_of_step h
  rfl

/-- A reclamation past its lock stays so. -/
theorem spent_step (h : m.step s = some m') :
    m'.spent = m.spent + ↑(s.detaches m.world).toList := by
  rw [spent, spent, settled_step h, ← Multiset.coe_add, ← add_assoc, detached_step h]
  abel

theorem mem_reclamations_of_owed {r : Reclamation} (h : .owed r ∈ m.hand) :
    r ∈ m.reclamations :=
  Multiset.mem_add.2 (.inl ((Multiset.mem_filterMap _ _).2 ⟨_, h, rfl⟩))

theorem mem_reclamations_of_detached {r : Reclamation} {b : Bool} (h : .detached r b ∈ m.hand) :
    r ∈ m.reclamations := by
  have hd : (r, b) ∈ m.detached := (Multiset.mem_filterMap _ _).2 ⟨_, h, rfl⟩
  have hs : (r, b) ∈ m.spent := Multiset.mem_add.2 (.inl hd)
  exact Multiset.mem_add.2 (.inr (Multiset.mem_map_of_mem Prod.fst hs))

/-- Only the release of a last handle adds a reclamation, and none is ever lost. -/
theorem reclamations_step (h : m.step s = some m') :
    m'.reclamations = m.reclamations + ↑(s.owes m.world).toList := by
  have hd : (m'.spent.map Prod.fst : Multiset Reclamation) =
      m.spent.map Prod.fst + ↑s.detaching.toList := by
    rw [spent_step h, Multiset.map_add, Multiset.map_coe, Step.detaches]
    cases s.detaching <;> rfl
  rw [reclamations, reclamations, hd, add_left_comm, owed_step h]
  abel

theorem interned_step (h : m.step s = some m') :
    m'.interned = s.interns m.world ++ m.interned := by
  rw [interned, answers_step h, List.filterMap_append]
  rfl

/-- A call that was answered is counted, or is still to be counted. -/
theorem calls_step (h : m.step s = some m')
    (hm : (m.interned : Multiset (Call × Outcome)) = m.entered + (m.recorded : Multiset _)) :
    (m'.interned : Multiset (Call × Outcome)) = m'.entered + (m'.recorded : Multiset _) := by
  have he := entered_step h
  rw [recorded_step h, interned_step h, ← Multiset.coe_add, ← Multiset.coe_add, hm,
    ← add_assoc (m'.entered), he]
  abel

end Machine

end Interning
