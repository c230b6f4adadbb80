import Interning.Proofs.Machine.Accounts

/-!
# Every step keeps the accounts

Each step changes the handles to an instance, and the owners of a table, by as much as what it puts
in the hand and in the tables exceeds what it takes out.

    m.Accounted → m.step s = some m' → m'.Accounted                       (Accounted.step)
    the empty machine is accounted for                                    (accounted_empty)
-/

namespace Interning

/-! ## Lemmas -/

/-! ### What is in hand is there -/

namespace Machine.Accounted

variable {m : Machine} (hm : m.Accounted)

include hm

theorem isLive {x : Token} (hx : x ∈ m.hand) {i : InstanceId} (hi : i ∈ x.handles) :
    m.world.isLive i = true := by
  have h₁ := count_le_handlesIn hx i
  have h₂ := List.count_pos_iff.2 hi
  rw [World.isLive_iff, hm.handles]
  omega

theorem isOwned {x : Token} (hx : x ∈ m.hand) {t : TableId} (ht : t ∈ x.owners) :
    m.world.isOwned t = true := by
  have h₁ := count_le_ownersIn hx t
  have h₂ := List.count_pos_iff.2 ht
  rw [World.isOwned_iff, hm.owners]
  omega

theorem isOwned_call {x : Token} (hx : x ∈ m.hand) {c : Call} (hc : x.call? = some c) :
    m.world.isOwned c.table = true :=
  hm.isOwned (hm.borrowed x hx c hc) List.mem_cons_self

/-- The entries of a retaining table are handles. -/
theorem isLive_retaining {t : TableId} (hs : (m.world.tableAt t).storage = .retaining) {k : String}
    {i : InstanceId} (h : (m.world.entries t).get? k = some i) : m.world.isLive i = true := by
  have h₁ : 0 < (m.world.tableAt t).retains i := by
    rw [Table.retains, hs]
    exact List.count_pos_iff.2 (KeyMap.mem_values_iff.2 ⟨k, h⟩)
  have h₂ := World.retains_le_retained (World.lt_size_of_entry h) i
  rw [World.isLive_iff, hm.handles]
  omega

/-- A retaining table that finds nothing has no entry. -/
theorem get?_retaining {t : TableId} (hs : (m.world.tableAt t).storage = .retaining) {k : String}
    (h : m.world.live? t k = none) : (m.world.entries t).get? k = none := by
  cases he : (m.world.entries t).get? k with
  | none => rfl
  | some i =>
    have hl := World.live?_eq_none_iff.1 h i he
    rw [hm.isLive_retaining hs he] at hl
    cases hl

end Machine.Accounted

/-! ### Handles -/

theorem count_handle (j i : InstanceId) :
    (Token.handle j).handles.count i = if i = j then 1 else 0 := by
  show List.count i [j] = _
  rw [List.count_singleton]
  simp only [beq_iff_eq, eq_comm (a := i)]

theorem count_entered (c : Call) (o : Outcome) (i : InstanceId) :
    (Token.entered c o).handles.count i = if i = o.canonical then 1 else 0 :=
  count_handle o.canonical i

theorem handlesIn_answered (c : Call) (o : Outcome) (w : World) (i : InstanceId) :
    handlesIn ↑(c.answered o w).gains i =
      (if i = o.canonical then 1 else 0) + (c.discarded o).toList.count i := by
  show handlesIn ↑(_ :: _ : List Token) i = _
  rw [handlesIn_cons, handlesIn_map_handle, count_entered]

/-- A step changes the handles to an instance by what it gains, less what it needs and what the
tables retain more after it. -/
def Step.Balanced (s : Step) (w : World) (i : InstanceId) : Prop :=
  (s.effect w).world.handles i + handlesIn ↑s.needs i + w.retained i =
    w.handles i + handlesIn ↑(s.effect w).gains i + (s.effect w).world.retained i

section
variable {w : World} (i : InstanceId)

theorem balanced_newTable (k : Storage) (capacity : UInt64) (tracked : Bool) :
    (Step.newTable k capacity tracked).Balanced w i := by
  have h := World.retained_newTable (w := w) k capacity tracked i
  simp only [Step.Balanced, Step.effect, Step.needs, handlesIn_nil, handlesIn_cons, h]
  rfl

theorem balanced_share (t : TableId) : (Step.share t).Balanced w i := by
  have h := World.retained_addOwner (w := w) t i
  simp only [Step.Balanced, Step.effect, Step.needs, handlesIn_nil, handlesIn_cons, h]
  rfl

theorem balanced_disown {t : TableId} (ht : t < w.tables.size) :
    (Step.disown t).Balanced w i := by
  have h := World.retained_removeOwner (w := w) t i
  have he : (w.removeOwner t).entries t = w.entries t := World.entries_removeOwner t t
  rw [Step.Balanced, Step.effect_disown]
  split
  · next hc =>
    have hr := World.retained_clear (w := w.removeOwner t) (t := t)
      (by rwa [World.removeOwner, World.size_modifyTable])
      (by rw [World.storage_removeOwner]; exact hc.2) i
    rw [he, h] at hr
    simp only [Step.needs, handlesIn_map_handle, List.count_reverse, handlesIn_cons,
      handlesIn_nil, ← hr]
    show w.handles i + 0 + _ = _
    omega
  · simp only [Step.needs, handlesIn_cons, handlesIn_nil, h]
    rfl

theorem balanced_value (text : String) : (Step.value text).Balanced w i := by
  have h := World.handles_create (w := w) text i
  have hr : (w.create text).2.retained i = w.retained i := rfl
  simp only [Step.Balanced, Step.effect, Step.needs, handlesIn_nil, handlesIn_cons, h, hr,
    count_handle, World.create_fst, Nat.add_zero]

theorem balanced_clone {j : InstanceId} (hj : w.isLive j = true) :
    (Step.clone j).Balanced w i := by
  have h := World.handles_addHandle (World.lt_size_of_isLive hj) i
  have hr : (w.addHandle j).retained i = w.retained i := rfl
  simp only [Step.Balanced, Step.effect, Step.needs, handlesIn_nil, handlesIn_cons, h, hr,
    count_handle]
  omega

theorem balanced_release {j : InstanceId} (hj : w.isLive j = true) :
    (Step.release j).Balanced w i := by
  have h := World.handles_loseHandle (w := w) j i
  have hpos : 0 < w.handles j := World.isLive_iff.1 hj
  have hle : (if i = j then 1 else 0) ≤ w.handles i := by split <;> [(subst i; exact hpos); omega]
  unfold Step.Balanced
  rcases Step.effect_release j w with ⟨r, k, -, -, -, he⟩ | ⟨-, k, he⟩
  · have hr : ((w.loseHandle j).addOwner r.table).retained i = w.retained i :=
      World.retained_addOwner r.table i
    simp only [he, Step.needs, handlesIn_cons, handlesIn_nil, count_handle]
    show (w.loseHandle j).handles i + _ + _ = _ + 0 + ((w.loseHandle j).addOwner r.table).retained i
    omega
  · simp only [he, Step.needs, handlesIn_cons, handlesIn_nil, count_handle]
    show (w.loseHandle j).handles i + _ + _ = _ + 0 + w.retained i
    omega

theorem balanced_lookup (t : TableId) (key : String) : (Step.lookup t key).Balanced w i := by
  obtain ⟨j, he⟩ := Step.effect_lookup t key w
  rw [Step.Balanced, he]
  cases hl : w.live? t key with
  | none => rfl
  | some x =>
    have h := World.handles_addHandle (World.lt_size_of_isLive (World.isLive_of_live? hl)) i
    simp only [Step.needs, Option.toList_some, List.map_cons, List.map_nil, handlesIn_cons,
      handlesIn_nil, count_handle]
    show (w.addHandle x).handles i + _ + _ = _ + _ + w.retained i
    omega

theorem balanced_begin (t : TableId) (f : Normalizer) (a : Argument) :
    (Step.begin t f a).Balanced w i := by
  simp only [Step.Balanced, Step.effect, Step.needs, Call.begin, handlesIn_cons, handlesIn_nil,
    handlesIn_map_handle]
  show w.handles i + (0 + _) + w.retained i = w.handles i + (0 + (_ + 0)) + w.retained i
  rfl

theorem balanced_hit {c : Call} {x : InstanceId} (hx : w.isLive x = true) (j : Array Act) :
    ((w.addHandle x).withJournal j).handles i + c.argument.leftover.toList.count i + w.retained i =
      w.handles i + handlesIn ↑(c.answered (.hit x) ((w.addHandle x).withJournal j)).gains i +
        ((w.addHandle x).withJournal j).retained i := by
  have h := World.handles_addHandle (World.lt_size_of_isLive hx) i
  rw [handlesIn_answered]
  show (w.addHandle x).handles i + _ + _ = _ + ((if i = x then 1 else 0) + _) + w.retained i
  simp only [Call.discarded]
  omega

theorem balanced_check (c : Call) : (Step.check c).Balanced w i := by
  unfold Step.Balanced
  rcases Step.effect_check c w with ⟨-, x, j, hl, he⟩ | ⟨-, j, he⟩
  · have h := balanced_hit (c := c) i (World.isLive_of_live? hl) j
    simp only [he, Step.needs, handlesIn_cons, handlesIn_nil]
    exact h
  · simp only [he, Step.needs, handlesIn_cons, handlesIn_nil]
    rfl

/-- What a call provides is paid for by its argument, or made. -/
theorem handles_provides {c : Call} {x : InstanceId} {rejected : Option InstanceId} {w₁ : World}
    (h : c.Provides w x rejected w₁) :
    w₁.handles i + c.argument.leftover.toList.count i =
      w.handles i + ((if i = x then 1 else 0) + rejected.toList.count i) := by
  cases h with
  | given ha hr =>
    rw [ha]
    show _ + List.count i [x] = _ + (_ + 0)
    rw [List.count_singleton]
    simp only [beq_iff_eq, eq_comm (a := i), Nat.add_zero]
  | fresh ha => rw [ha, World.handles_create]; rfl
  | copy ha hs hr =>
    rw [ha, World.handles_create]
    simp only [Argument.leftover]
    omega

theorem lt_size_provides {c : Call} {x : InstanceId} {rejected : Option InstanceId} {w₁ : World}
    (hl : ∀ i ∈ c.argument.leftover, w.isLive i = true) (h : c.Provides w x rejected w₁) :
    x < w₁.instances.size := by
  cases h with
  | given ha hr => exact World.lt_size_of_isLive (hl x (by rw [ha]; rfl))
  | fresh ha => rw [World.size_create]; exact Nat.lt_succ_self _
  | copy ha hs hr => rw [World.size_create]; exact Nat.lt_succ_self _

theorem balanced_enter {c : Call} (ht : c.table < w.tables.size)
    (hl : ∀ i ∈ c.argument.leftover, w.isLive i = true)
    (hk : (w.tableAt c.table).storage = .retaining → w.live? c.table c.key = none →
      (w.entries c.table).get? c.key = none) : (Step.enter c).Balanced w i := by
  unfold Step.Balanced
  cases hf : w.live? c.table c.key with
  | some x =>
    obtain ⟨j, he⟩ := Step.effect_enter_of_some hf
    have h := balanced_hit (c := c) i (World.isLive_of_live? hf) j
    simp only [he, Step.needs, handlesIn_cons, handlesIn_nil]
    exact h
  | none =>
    obtain ⟨x, rejected, w₁, j, hp, he⟩ := Step.effect_enter_of_none hf
    have h₁ := handles_provides i hp
    have h₂ := World.handles_install c.table c.key (lt_size_provides hl hp) i
    have h₃ := World.retained_install (w := w₁) x
      (show c.table < w₁.tables.size by rwa [hp.tables])
      (by rw [World.entries, hp.tableAt]; exact fun hs => hk hs hf) i
    have h₄ : w₁.retained i = w.retained i := by simp only [World.retained, hp.tables, hp.tableAt]
    simp only [he, Step.needs, handlesIn_cons, handlesIn_nil]
    rw [handlesIn_answered]
    show (w₁.install c.table c.key x).handles i + (c.argument.leftover.toList.count i + 0) + _ =
      _ + ((if i = x then 1 else 0) + rejected.toList.count i) +
        (w₁.install c.table c.key x).retained i
    omega

theorem retained_of_tables {w' : World} (h : w'.tables = w.tables) :
    w'.retained i = w.retained i := by
  simp only [World.retained, World.tableAt, h]

theorem balanced_record (c : Call) (o : Outcome) : (Step.record c o).Balanced w i := by
  have h₁ := World.handles_congr (c.instances_record o w) i
  have h₂ := retained_of_tables i (c.tables_record o w)
  rw [World.retained_count] at h₂
  simp only [Step.Balanced, Step.effect, Step.needs, handlesIn_cons, handlesIn_nil, count_handle,
    count_entered]
  omega

/-- The entry that goes is no handle. -/
theorem balanced_detach {r : Reclamation} (hs : (w.tableAt r.table).storage = .reclaiming) :
    (Step.detach r).Balanced w i := by
  unfold Step.Balanced
  by_cases h : (w.entries r.table).get? r.key = some r.gone
  · obtain ⟨j, he⟩ := Step.effect_detach_of_own h
    have hr := World.retained_modifyEntries_of_reclaiming hs (fun m => m.erase r.key) i
    rw [he, Step.needs, handlesIn_cons, handlesIn_cons, handlesIn_nil]
    simp only []
    rw [World.handles_withJournal, World.retained_withJournal, World.handles_modifyEntries, hr]
    simp only [Token.handles]
  · obtain ⟨j, he⟩ := Step.effect_detach_of_other h
    rw [he, Step.needs, handlesIn_cons, handlesIn_cons, handlesIn_nil]
    simp only [World.handles_withJournal, World.retained_withJournal, Token.handles]

theorem balanced_settle (r : Reclamation) (removed : Bool) :
    (Step.settle r removed).Balanced w i := by
  have h₁ := World.handles_congr (r.instances_settle removed w) i
  have h₂ := retained_of_tables i (r.tables_settle removed w)
  rw [World.retained_removeOwner, World.retained_count] at h₂
  simp only [Step.Balanced, Step.effect, Step.needs, handlesIn_cons, handlesIn_nil, h₁, h₂,
    Token.handles, List.count_nil]

end

/-- What a step needs in hand is there, and what it owes comes from reclaiming tables: then it
changes handles by as much as it should. -/
theorem Machine.Accounted.balanced {m : Machine} {s : Step} (hm : m.Accounted)
    (hr : ∀ r, .owed r ∈ m.hand → (m.world.tableAt r.table).storage = .reclaiming)
    (hs : ∀ x ∈ s.needs, x ∈ m.hand) (i : InstanceId) : s.Balanced m.world i := by
  cases s with
  | newTable k capacity tracked => exact balanced_newTable i k capacity tracked
  | share t => exact balanced_share i t
  | disown t =>
    have ho := hm.isOwned (hs (.owner t) List.mem_cons_self) List.mem_cons_self
    exact balanced_disown i (World.lt_size_of_isOwned ho)
  | value text => exact balanced_value i text
  | clone j =>
    exact balanced_clone i (hm.isLive (hs (.handle j) List.mem_cons_self) List.mem_cons_self)
  | release j =>
    exact balanced_release i (hm.isLive (hs (.handle j) List.mem_cons_self) List.mem_cons_self)
  | normalize => rfl
  | lookup t key => exact balanced_lookup i t key
  | begin t f a => exact balanced_begin i t f a
  | check c => exact balanced_check i c
  | enter c =>
    have hc : .missed c ∈ m.hand := hs _ List.mem_cons_self
    refine balanced_enter i (World.lt_size_of_isOwned (hm.isOwned_call hc rfl)) ?_
      (fun hk => hm.get?_retaining hk)
    intro j hj
    exact hm.isLive hc (Option.mem_toList.2 hj)
  | record c o => exact balanced_record i c o
  | detach r => exact balanced_detach i (hr r (hs _ List.mem_cons_self))
  | settle r removed => exact balanced_settle i r removed

/-! ### Owners -/

section
variable {w : World}

theorem count_owner (t u : TableId) : (Token.owner t).owners.count u = if u = t then 1 else 0 := by
  show List.count u [t] = _
  rw [List.count_singleton]
  simp only [beq_iff_eq, eq_comm (a := u)]

/-- A step changes the owners of a table by what it gains, less what it needs. -/
def Step.BalancedOwners (s : Step) (w : World) (u : TableId) : Prop :=
  ((s.effect w).world.tableAt u).owners + ownersIn ↑s.needs u =
    (w.tableAt u).owners + ownersIn ↑(s.effect w).gains u

theorem balancedOwners_newTable (k : Storage) (capacity : UInt64) (tracked : Bool) (u : TableId) :
    (Step.newTable k capacity tracked).BalancedOwners w u := by
  rw [Step.BalancedOwners, Step.effect, Step.needs, ownersIn_nil, ownersIn_cons, ownersIn_nil,
    count_owner]
  simp only []
  rw [World.tableAt_newTable]
  show _ = _ + ((if u = w.tables.size then 1 else 0) + 0)
  split
  · next h =>
    subst h
    rw [World.tableAt, Array.getElem?_eq_none (Nat.le_refl _)]
    rfl
  · omega

theorem balancedOwners_share {t : TableId} (ht : t < w.tables.size) (u : TableId) :
    (Step.share t).BalancedOwners w u := by
  have h := World.owners_addOwner ht u
  simp only [Step.BalancedOwners, Step.effect, Step.needs, ownersIn_cons, ownersIn_nil, count_owner]
  omega

theorem balancedOwners_disown {t : TableId} (ht : 0 < (w.tableAt t).owners) (u : TableId) :
    (Step.disown t).BalancedOwners w u := by
  have h := World.owners_removeOwner (w := w) t u
  have hle : (if u = t then 1 else 0) ≤ (w.tableAt u).owners := by
    split <;> [(subst u; exact ht); omega]
  rw [Step.BalancedOwners, Step.effect_disown]
  simp only [Step.needs, ownersIn_cons, ownersIn_nil, count_owner]
  split
  · simp only [World.owners_modifyEntries, ownersIn_map_handle]
    omega
  · simp only [ownersIn_nil]
    omega

theorem balancedOwners_release (j : InstanceId) (u : TableId) :
    (Step.release j).BalancedOwners w u := by
  unfold Step.BalancedOwners
  rcases Step.effect_release j w with ⟨r, k, -, -, ho, he⟩ | ⟨-, k, he⟩
  · have h := World.owners_addOwner (w := w.loseHandle j) (t := r.table)
      (World.lt_size_of_isOwned ho) u
    simp only [he, Step.needs, ownersIn_cons, ownersIn_nil]
    show (((w.loseHandle j).addOwner r.table).tableAt u).owners + 0 =
      _ + ((Token.owner r.table).owners.count u + 0)
    rw [count_owner, h]
    rfl
  · rw [he]
    rfl

theorem ownersIn_answered (c : Call) (o : Outcome) (w' : World) (u : TableId) :
    ownersIn ↑(c.answered o w').gains u = 0 := by
  show ownersIn ↑(_ :: _ : List Token) u = 0
  rw [ownersIn_cons, ownersIn_map_handle]
  rfl

theorem balancedOwners_lookup (t : TableId) (key : String) (u : TableId) :
    (Step.lookup t key).BalancedOwners w u := by
  obtain ⟨j, he⟩ := Step.effect_lookup t key w
  rw [Step.BalancedOwners, he]
  simp only [Step.needs, ownersIn_cons, ownersIn_nil, ownersIn_map_handle]
  cases w.live? t key <;> rfl

theorem balancedOwners_check (c : Call) (u : TableId) : (Step.check c).BalancedOwners w u := by
  unfold Step.BalancedOwners
  rcases Step.effect_check c w with ⟨-, x, j, -, he⟩ | ⟨-, j, he⟩
  · rw [he, ownersIn_answered]
    rfl
  · rw [he]
    rfl

theorem balancedOwners_enter (c : Call) (u : TableId) : (Step.enter c).BalancedOwners w u := by
  unfold Step.BalancedOwners
  cases hf : w.live? c.table c.key with
  | some x =>
    obtain ⟨j, he⟩ := Step.effect_enter_of_some hf
    rw [he, ownersIn_answered]
    rfl
  | none =>
    obtain ⟨x, rejected, w₁, j, hp, he⟩ := Step.effect_enter_of_none hf
    rw [he, ownersIn_answered]
    show ((w₁.install c.table c.key x).tableAt u).owners + 0 = _
    rw [World.owners_install, hp.tableAt]

theorem balancedOwners_record (c : Call) (o : Outcome) (u : TableId) :
    (Step.record c o).BalancedOwners w u := by
  have h := congrArg Table.owners (World.tableAt_congr (c.tables_record o w) u)
  rw [World.owners_count] at h
  simp only [Step.BalancedOwners, Step.effect, Step.needs, ownersIn_cons, ownersIn_nil, h]
  rfl

theorem balancedOwners_detach (r : Reclamation) (u : TableId) :
    (Step.detach r).BalancedOwners w u := by
  unfold Step.BalancedOwners
  by_cases h : (w.entries r.table).get? r.key = some r.gone
  · obtain ⟨j, he⟩ := Step.effect_detach_of_own h
    rw [he]
    simp only [World.tableAt_withJournal, World.owners_modifyEntries]
    rfl
  · obtain ⟨j, he⟩ := Step.effect_detach_of_other h
    rw [he]
    rfl

theorem balancedOwners_settle {r : Reclamation} (hr : 0 < (w.tableAt r.table).owners)
    (removed : Bool) (u : TableId) : (Step.settle r removed).BalancedOwners w u := by
  have h := congrArg Table.owners (World.tableAt_congr (r.tables_settle removed w) u)
  have hle : (if u = r.table then 1 else 0) ≤ (w.tableAt u).owners := by
    split <;> [(subst u; exact hr); omega]
  rw [World.owners_removeOwner, World.owners_count] at h
  simp only [Step.BalancedOwners, Step.effect, Step.needs, ownersIn_cons, ownersIn_nil, h]
  show _ + ((Token.owner r.table).owners.count u + 0) = _
  rw [count_owner]
  omega

end

/-- What a step needs in hand is there: then it changes owners by as much as it should. -/
theorem Machine.Accounted.balancedOwners {m : Machine} {s : Step} (hm : m.Accounted)
    (hs : ∀ x ∈ s.needs, x ∈ m.hand) (u : TableId) : s.BalancedOwners m.world u := by
  cases s with
  | newTable k capacity tracked => exact balancedOwners_newTable k capacity tracked u
  | share t =>
    have ho := hm.isOwned (hs (.owner t) List.mem_cons_self) List.mem_cons_self
    exact balancedOwners_share (World.lt_size_of_isOwned ho) u
  | disown t =>
    have ho := hm.isOwned (hs (.owner t) List.mem_cons_self) List.mem_cons_self
    exact balancedOwners_disown (World.isOwned_iff.1 ho) u
  | value text => rfl
  | clone j => rfl
  | release j => exact balancedOwners_release j u
  | normalize => rfl
  | lookup t key => exact balancedOwners_lookup t key u
  | begin t f a =>
    simp only [Step.BalancedOwners, Step.needs, Step.effect, Call.begin, ownersIn_cons,
      ownersIn_map_handle, ownersIn_nil]
    rfl
  | check c => exact balancedOwners_check c u
  | enter c => exact balancedOwners_enter c u
  | record c o => exact balancedOwners_record c o u
  | detach r => exact balancedOwners_detach r u
  | settle r removed =>
    have ho := hm.isOwned (t := r.table) (hs _ List.mem_cons_self) List.mem_cons_self
    exact balancedOwners_settle (World.isOwned_iff.1 ho) removed u

/-! ### Borrowed owners -/

theorem call?_of_mem_map_handle {is : List InstanceId} {x : Token} (h : x ∈ is.map Token.handle) :
    x.call? = none := by
  obtain ⟨i, -, rfl⟩ := List.mem_map.1 h
  rfl

theorem call?_of_mem_answered {c : Call} {o : Outcome} {w : World} {x : Token}
    (hx : x ∈ (c.answered o w).gains) {c' : Call} (hc : x.call? = some c') : c' = c := by
  rcases List.mem_cons.1 hx with rfl | hx
  · exact (Option.some.inj hc).symm
  · rw [call?_of_mem_map_handle hx] at hc
    cases hc

/-- A call in progress begins, or goes on. -/
theorem Step.call?_of_mem_gains {s : Step} {w : World} {x : Token} (hx : x ∈ (s.effect w).gains)
    {c : Call} (hc : x.call? = some c) :
    (∃ t f a, s = .begin t f a ∧ c = (Call.begin t f a w).1) ∨ ∃ y ∈ s.needs, y.call? = some c := by
  cases s with
  | begin t f a =>
    refine .inl ⟨t, f, a, rfl, ?_⟩
    rcases List.mem_cons.1 hx with rfl | hx
    · cases hc
    · rw [List.mem_singleton.1 hx] at hc
      exact (Option.some.inj hc).symm
  | check d =>
    refine .inr ⟨_, List.mem_cons_self, ?_⟩
    rcases effect_check d w with ⟨-, i, j, -, he⟩ | ⟨-, j, he⟩
    · rw [he] at hx
      rw [call?_of_mem_answered hx hc]
      rfl
    · rw [he, List.mem_singleton] at hx
      rw [← hc, hx]
      rfl
  | enter d =>
    refine .inr ⟨_, List.mem_cons_self, ?_⟩
    rw [call?_of_mem_answered hx hc]
    rfl
  | normalize | settle => cases hx
  | newTable | share | value | clone | record | detach =>
    simp only [effect, List.mem_cons, List.not_mem_nil, or_false, or_self] at hx
    subst hx
    cases hc
  | disown t =>
    rw [call?_of_mem_map_handle hx] at hc
    cases hc
  | lookup t key =>
    rcases List.mem_cons.1 hx with rfl | hx
    · cases hc
    · rw [call?_of_mem_map_handle hx] at hc
      cases hc
  | release i =>
    obtain ⟨r, -, rfl⟩ := List.mem_map.1 hx
    cases hc

/-- A step gives back the owner that it needs, unless it gives it up. -/
theorem Step.owner_mem_gains {s : Step} {t : TableId} (w : World) (h : .owner t ∈ s.needs) :
    .owner t ∈ (s.effect w).gains ∨ s = .disown t := by
  have hmap : ∀ is : List InstanceId, Token.owner t ∉ is.map .handle := by
    intro is hc
    obtain ⟨i, -, hi⟩ := List.mem_map.1 hc
    cases hi
  cases s with
  | share u | lookup u key =>
    obtain rfl := Token.owner.inj (List.mem_singleton.1 h)
    exact .inl List.mem_cons_self
  | disown u =>
    obtain rfl := Token.owner.inj (List.mem_singleton.1 h)
    exact .inr rfl
  | begin u f a =>
    rcases List.mem_cons.1 h with h | h
    · obtain rfl := Token.owner.inj h
      exact .inl List.mem_cons_self
    · exact absurd h (hmap _)
  | newTable | value | clone | release | normalize | check | enter | record | detach | settle =>
    simp [needs] at h

namespace Machine

variable {m m' : Machine} {s : Step}

/-- A call in progress keeps an owner of its table in hand. -/
theorem Accounted.borrowed_step (hm : m.Accounted) (h : m.step s = some m') :
    ∀ x ∈ m'.hand, ∀ c, x.call? = some c → .owner c.table ∈ m'.hand := by
  obtain ⟨rest, hh, ha, rfl⟩ := exists_of_step h
  show ∀ x ∈ rest + ↑(s.effect m.world).gains, ∀ c, x.call? = some c →
    .owner c.table ∈ rest + ↑(s.effect m.world).gains
  -- An owner in hand stays there, unless it is the one given up; then there is no call.
  have hkeep : ∀ x ∈ m.hand, ∀ c, x.call? = some c →
      .owner c.table ∈ rest + ↑(s.effect m.world).gains := by
    intro x hx c hc
    have ho := hm.borrowed x hx c hc
    rw [hh, Multiset.mem_add, Multiset.mem_coe] at ho
    rw [Multiset.mem_add, Multiset.mem_coe]
    rcases ho with ho | ho
    · exact .inl ho
    · rcases Step.owner_mem_gains m.world ho with ho | rfl
      · exact .inr ho
      · rcases ha with ha | ha
        · rw [hh, Multiset.count_add] at ha
          refine .inl (Multiset.count_pos.1 ?_)
          have h₁ : (↑(Step.disown c.table).needs : Multiset Token).count (.owner c.table) = 1 := by
            simp [Step.needs]
          omega
        · exact absurd (by rw [hc]; rfl) (ha x hx)
  intro x hx c hc
  rcases Multiset.mem_add.1 hx with hx | hx
  · exact hkeep x (hh ▸ Multiset.mem_add.2 (.inl hx)) c hc
  · rcases Step.call?_of_mem_gains (Multiset.mem_coe.1 hx) hc with
      ⟨t, f, a, rfl, rfl⟩ | ⟨y, hy, hyc⟩
    · exact Multiset.mem_add.2 (.inr (Multiset.mem_coe.2 List.mem_cons_self))
    · exact hkeep y (mem_of_needs hh y hy) c hyc

/-- A step keeps the accounts, when what is owed is owed to reclaiming tables. -/
theorem Accounted.step (hm : m.Accounted)
    (hr : ∀ r, .owed r ∈ m.hand → (m.world.tableAt r.table).storage = .reclaiming)
    (h : m.step s = some m') : m'.Accounted := by
  have hb := hm.borrowed_step h
  obtain ⟨rest, hh, ha, rfl⟩ := exists_of_step h
  have hs := mem_of_needs hh
  refine ⟨fun i => ?_, fun t => ?_, hb⟩
  · have h₁ : _ + _ + _ = _ + _ + _ := hm.balanced hr hs i
    have h₂ := hm.handles i
    rw [hh, handlesIn_add] at h₂
    show (s.effect m.world).world.handles i =
      handlesIn (rest + ↑(s.effect m.world).gains) i + (s.effect m.world).world.retained i
    rw [handlesIn_add]
    omega
  · have h₁ : _ + _ = _ + _ := hm.balancedOwners hs t
    have h₂ := hm.owners t
    rw [hh, ownersIn_add] at h₂
    show ((s.effect m.world).world.tableAt t).owners =
      ownersIn (rest + ↑(s.effect m.world).gains) t
    rw [ownersIn_add]
    omega

theorem accounted_empty : Accounted {} :=
  ⟨fun _ => rfl, fun _ => rfl, fun _ hx => absurd hx (Multiset.notMem_zero _)⟩

end Machine

end Interning
