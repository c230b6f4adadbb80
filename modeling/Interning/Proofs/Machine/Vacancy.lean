import Interning.Proofs.Machine.Answers
import Interning.Proofs.World.Exchange

/-!
# Tables that are gone retain nothing

With its last owner a retaining table lets all its entries go, and nothing is stored there any more.
So every handle to an instance is in the hand, or is an entry of a retaining table that is there.

    a table that is there stays there, unless its owner is given up     (Accounted.isOwned_step)
    a retaining table that is gone has no entry                                   (Vacant.step)
    handles = handles in the hand + entries of the retaining tables           (Vacant.handles_eq)
-/

namespace Interning

/-! ## Algorithm -/

/-- The retaining tables that are there. -/
def World.retainers (w : World) : Finset TableId :=
  (Finset.range w.tables.size).filter fun t =>
    w.isOwned t = true ∧ (w.tableAt t).storage = .retaining

/-- A retaining table that is gone has no entry. -/
def Machine.Vacant (m : Machine) : Prop :=
  ∀ t k, (m.world.tableAt t).storage = .retaining → m.world.isOwned t = false →
    (m.world.entries t).get? k = none

/-! ## Lemmas -/

theorem World.mem_retainers {w : World} {t : TableId} :
    t ∈ w.retainers ↔ w.isOwned t = true ∧ (w.tableAt t).storage = .retaining := by
  rw [retainers, Finset.mem_filter, Finset.mem_range]
  exact ⟨And.right, fun h => ⟨lt_size_of_isOwned h.1, h⟩⟩

namespace Machine

variable {m m' : Machine} {s : Step} {t : TableId}

/-- A table that is there stays there, unless an owner of it is given up. -/
theorem Accounted.isOwned_step (hm : m.Accounted) (h : m.step s = some m')
    (hdisown : s ≠ .disown t) (hsettle : ∀ r b, s = .settle r b → r.table ≠ t)
    (ho : m.world.isOwned t = true) : m'.world.isOwned t = true := by
  obtain ⟨rest, hh, -, rfl⟩ := exists_of_step h
  have hb := hm.balancedOwners (mem_of_needs hh) t
  have hle : ownersIn ↑s.needs t ≤ ownersIn ↑(s.effect m.world).gains t := by
    cases s with
    | disown u =>
      have hu : t ≠ u := fun hc => hdisown (hc ▸ rfl)
      rw [Step.needs, ownersIn_cons, ownersIn_nil, count_owner, if_neg hu]
      exact Nat.zero_le _
    | settle r b =>
      have hcount : (Token.detached r b).owners.count t = 0 :=
        List.count_eq_zero.2 fun hc => hsettle r b rfl (List.mem_singleton.1 hc).symm
      rw [Step.needs, ownersIn_cons, ownersIn_nil, hcount]
      exact Nat.zero_le _
    | share u =>
      simp only [Step.needs, Step.effect, ownersIn_cons]
      exact Nat.le_add_left _ _
    | lookup u key =>
      obtain ⟨j, he⟩ := Step.effect_lookup u key m.world
      simp only [he, Step.needs, ownersIn_cons, ownersIn_nil]
      exact Nat.le_add_right _ _
    | begin u f a =>
      simp only [Step.needs, Step.effect, ownersIn_cons, ownersIn_map_handle]
      exact Nat.le_add_right _ _
    | detach r => exact Nat.le_refl _
    | newTable | value | clone | release | normalize | check | enter | record => exact Nat.zero_le _
  rw [World.isOwned_iff] at ho ⊢
  unfold Step.BalancedOwners at hb
  show 0 < ((s.effect m.world).world.tableAt t).owners
  omega

theorem vacant_empty : Vacant {} := fun _ _ _ _ => rfl

theorem Vacant.step (hv : m.Vacant) (hm : m.Sound) (h : m.step s = some m') : m'.Vacant := by
  intro t k hs ho
  cases he : (m'.world.entries t).get? k with
  | none => rfl
  | some i =>
    exfalso
    have hx := hm.accounted.extends_step h
    obtain ⟨rest, hh, -, hnext⟩ := exists_of_step h
    have hentry : ((s.effect m.world).world.entries t).get? k = some i := by rw [← he, hnext]; rfl
    rcases Step.entry_origin hentry with hold | ⟨c, rejected, w₁, j, rfl, rfl, rfl, -, -, -⟩
    · -- The entry was there before, so the table was, and now its last owner went.
      have hs₀ : (m.world.tableAt t).storage = .retaining :=
        (hx.storage t (World.lt_size_of_entry hold)).symm.trans hs
      have ho₀ : m.world.isOwned t = true := by
        by_contra hn
        rw [hv t k hs₀ (Bool.eq_false_iff.2 hn)] at hold
        cases hold
      have hsettle : ∀ r b, s = .settle r b → r.table ≠ t := by
        rintro r b rfl
        have hr : .detached r b ∈ m.hand := mem_of_needs hh _ List.mem_cons_self
        exact hm.registered.not_reclaimed hs₀ r (mem_reclamations_of_detached hr)
      by_cases hd : s = .disown t
      · subst hd
        have hworld : m'.world = (m.world.abandon t).2 := by
          rw [hnext]
          rfl
        rw [hworld] at ho he
        rw [World.entries_abandon hs₀ ho] at he
        cases he
      · rw [hm.accounted.isOwned_step h hd hsettle ho₀] at ho
        cases ho
    · -- A call in progress has an owner of its table.
      have hmem : .missed c ∈ m.hand := mem_of_needs hh _ List.mem_cons_self
      have ho₀ := hm.accounted.isOwned_call hmem rfl
      rw [hm.accounted.isOwned_step h nofun nofun ho₀] at ho
      cases ho

theorem Vacant.of_run {steps : List Step} (hv : m.Vacant) (hm : m.Sound)
    (h : run steps m = some m') : m'.Vacant := by
  have hp : m'.Sound ∧ m'.Vacant :=
    run_induction (P := fun x => x.Sound ∧ x.Vacant)
      (fun _ _ _ _ hx h => ⟨hx.1.step h, hx.2.step hx.1 h⟩) ⟨hm, hv⟩ h
  exact hp.2

/-- Every handle is in the hand, or is an entry of a retaining table that is there. -/
theorem Vacant.handles_eq (hv : m.Vacant) (hm : m.Accounted) (i : InstanceId) :
    m.world.handles i =
      handlesIn m.hand i + ∑ t ∈ m.world.retainers, (m.world.entries t).values.count i := by
  have hretained : m.world.retained i =
      ∑ t ∈ m.world.retainers, (m.world.entries t).values.count i := by
    rw [World.retained, World.retainers, Finset.sum_filter]
    refine Finset.sum_congr rfl fun t _ => ?_
    split
    · next h =>
      rw [Table.retains, h.2]
      rfl
    · next h =>
      rw [Table.retains]
      cases hs : (m.world.tableAt t).storage with
      | reclaiming => rfl
      | retaining =>
        have ho : m.world.isOwned t = false := Bool.eq_false_iff.2 fun ho => h ⟨ho, hs⟩
        refine List.count_eq_zero.2 fun hi => ?_
        obtain ⟨k, hk⟩ := KeyMap.mem_values_iff.1 hi
        cases (hv t k hs ho).symm.trans hk
  rw [hm.handles, hretained]

end Machine

end Interning
