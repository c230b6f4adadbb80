import Interning.Proofs.Machine.Prompt
import Interning.Proofs.Machine.Sweeping

/-!
# Steps without delay

Take the pieces of the reclamations out of a run, and do each reclamation at once instead, in the
release that makes it due.  Every other step has the same effect as before, except that what was
called stale is not there any more; and in hand is the same, except for the reclamations.

    a step that is no release has the same effect in a swept world      (Sound.undelayed_effect)
    a table that no reclamation keeps is owned by its clients
                                                    (Sound.owners_retaining, Prompt.owners)
    a table that a client owns was owned by one since it was made               (Keeps.of_step)
-/

namespace Interning

/-! ## Algorithm -/

/-- The outcome of the call when nothing comes late. -/
def Outcome.unstale : Outcome → Outcome
  | hit i => hit i
  | stored i _ rejected => stored i false rejected

/-- The answer when nothing comes late. -/
def Answer.unstale : Answer → Answer
  | interned c o => interned c o.unstale
  | lookedUp t k found => lookedUp t k found

/-- A call with its outcome, when nothing comes late. -/
def unstale (p : Call × Outcome) : Call × Outcome := (p.1, p.2.unstale)

/-- What is in hand when nothing comes late. -/
def Token.undelayed? : Token → Option Token
  | entered c o => some (entered c o.unstale)
  | owed _ => none
  | detached _ _ => none
  | x => some x

/-- The step that is taken when nothing comes late: a piece of a reclamation is none of its own. -/
def Step.undelayed? : Step → Option Step
  | record c o => some (record c o.unstale)
  | detach _ => none
  | settle _ _ => none
  | s => some s

/-- The second effect is the first one when nothing comes late. -/
structure Effect.Undelayed (p : TableId → Prop) (e e' : Effect) : Prop where
  swept : e.world.Swept p e'.world
  gains : e'.gains = e.gains.filterMap Token.undelayed?
  answer : e'.answer = e.answer.map Answer.unstale

/-- A client owns the table, or it is still to be made. -/
def Machine.Keeps (m : Machine) (t : TableId) : Prop :=
  .owner t ∈ m.hand ∨ m.world.tables.size ≤ t

/-! ## Lemmas -/

@[simp]
theorem Outcome.canonical_unstale (o : Outcome) : o.unstale.canonical = o.canonical := by
  cases o <;> rfl

@[simp]
theorem Outcome.isHit_unstale (o : Outcome) : o.unstale.isHit = o.isHit := by
  cases o <;> rfl

theorem Call.discarded_unstale (c : Call) (o : Outcome) :
    c.discarded o.unstale = c.discarded o := by
  cases o <;> rfl

theorem filterMap_undelayed_handles (is : List InstanceId) :
    (is.map Token.handle).filterMap Token.undelayed? = is.map Token.handle := by
  rw [List.filterMap_map]
  exact (List.filterMap_eq_map (f := Token.handle)).symm ▸ rfl

/-! ### Effects -/

namespace Effect.Undelayed

variable {w u : World} {p : TableId → Prop}

theorem answered (h : w.Swept p u) (c : Call) (o : Outcome) :
    Undelayed p (c.answered o w) (c.answered o.unstale u) where
  swept := h
  gains := by
    rw [Call.answered, Call.answered, List.filterMap_cons, filterMap_undelayed_handles,
      c.discarded_unstale]
    rfl
  answer := rfl

end Effect.Undelayed

namespace Machine

variable {m : Machine} {u : World} {p : TableId → Prop} {s s' : Step}

theorem Sound.lt_size_of_entry (hm : m.Sound) (t : TableId) (k : String) (i : InstanceId)
    (h : (m.world.entries t).get? k = some i) : i < m.world.instances.size := by
  cases hs : (m.world.tableAt t).storage with
  | retaining => exact World.lt_size_of_isLive (hm.accounted.isLive_retaining hs h)
  | reclaiming => exact World.lt_size_of_registration (hm.registered.entry t k i hs h)

/-- A call does the same in a swept world. -/
theorem Sound.undelayed_enter (hm : m.Sound) (h : m.world.Swept p u) {c : Call} (hc : p c.table)
    (hx : .missed c ∈ m.hand) :
    ((Step.enter c).effect m.world).Undelayed p ((Step.enter c).effect u) := by
  have hsame := h.live? hc c.key
  cases hf : m.world.live? c.table c.key with
  | some i =>
    obtain ⟨j, he⟩ := Step.effect_enter_of_some hf
    obtain ⟨j', he'⟩ := Step.effect_enter_of_some (hsame.trans hf)
    rw [he, he']
    exact .answered ((h.addHandle (World.isLive_of_live? hf)).withJournal j j') c (.hit i)
  | none =>
    obtain ⟨x, rejected, w₁, j, hp, he⟩ := Step.effect_enter_of_none hf
    obtain ⟨y, rejected', u₁, j', hq, he'⟩ := Step.effect_enter_of_none (hsame.trans hf)
    obtain ⟨rfl, rfl, h₁⟩ := hp.swept h hm.lt_size_of_entry hq
    have hl : ∀ i ∈ c.argument.leftover, m.world.isLive i = true := fun i hi =>
      hm.accounted.isLive hx (Option.mem_toList.2 hi)
    have ht : c.table < w₁.tables.size := by
      rw [hp.tables]
      exact World.lt_size_of_isOwned (hm.accounted.isOwned_call hx rfl)
    rw [he, he', h.contains_eq_false hc hf]
    exact .answered ((h₁.install hc ht c.key (hp.isLive_self hl)).withJournal j j') c
      (.stored y _ rejected')

/-- So does a look under the read lock. -/
theorem undelayed_check (h : m.world.Swept p u) {c : Call} (hc : p c.table) :
    ((Step.check c).effect m.world).Undelayed p ((Step.check c).effect u) := by
  have hsame := h.live? hc c.key
  rcases Step.effect_check c m.world with ⟨hr, i, j, hf, he⟩ | ⟨hr, j, he⟩
  · rcases Step.effect_check c u with ⟨-, i', j', hf', he'⟩ | ⟨hr', j', -⟩
    · obtain rfl := Option.some.inj (hf'.symm.trans (hsame.trans hf))
      rw [he, he']
      exact .answered ((h.addHandle (World.isLive_of_live? hf)).withJournal j j') c (.hit i')
    · rw [h.storage, hr, hsame, hf] at hr'
      rcases hr' with hr' | hr' <;> cases hr'
  · rcases Step.effect_check c u with ⟨hr', i', j', hf', -⟩ | ⟨-, j', he'⟩
    · rw [← h.storage, hr', ← hsame, hf'] at hr
      rcases hr with hr | hr <;> cases hr
    · rw [he, he']
      exact ⟨h.withJournal j j', rfl, rfl⟩

theorem undelayed_lookup (h : m.world.Swept p u) {t : TableId} (ht : p t) (key : String) :
    ((Step.lookup t key).effect m.world).Undelayed p ((Step.lookup t key).effect u) := by
  obtain ⟨j, he⟩ := Step.effect_lookup t key m.world
  obtain ⟨j', he'⟩ := Step.effect_lookup t key u
  rw [he, he', h.live? ht key]
  refine ⟨World.Swept.withJournal ?_ j j', ?_, rfl⟩
  · cases hf : m.world.live? t key with
    | none => exact h
    | some i => exact h.addHandle (World.isLive_of_live? hf)
  · rw [List.filterMap_cons, filterMap_undelayed_handles]
    rfl

/-- The last owner of a retaining table is the last one in a swept world, too, and lets the same
entries go. -/
theorem Accounted.undelayed_disown (hm : m.Accounted) (h : m.world.Swept p u) {t : TableId}
    (ht : p t) (ho : (m.world.tableAt t).storage = .retaining →
      (u.tableAt t).owners = (m.world.tableAt t).owners) :
    ((Step.disown t).effect m.world).Undelayed p ((Step.disown t).effect u) := by
  rw [Step.effect_disown, Step.effect_disown, h.storage]
  by_cases hr : (m.world.tableAt t).storage = .retaining
  · rw [ho hr]
    split
    · have he : u.entries t = m.world.entries t := by
        rw [h.entries t ht]
        exact KeyMap.keep_eq_self fun k i hk => hm.isLive_retaining hr hk
      refine ⟨(h.removeOwner t).clear t, ?_, rfl⟩
      rw [he, filterMap_undelayed_handles]
    · exact ⟨h.removeOwner t, rfl, rfl⟩
  · rw [if_neg fun hc => hr hc.2, if_neg fun hc => hr hc.2]
    exact ⟨h.removeOwner t, rfl, rfl⟩

/-- A step that is no piece of a release or a reclamation has the same effect in a swept world. -/
theorem Sound.undelayed_effect (hm : m.Sound) (hn : ∀ x ∈ s.needs, x ∈ m.hand)
    (hs : ∀ i, s ≠ .release i) (hu : s.undelayed? = some s') (h : m.world.Swept p u)
    (hp : ∀ t, .owner t ∈ m.hand → p t)
    (ho : ∀ t, (m.world.tableAt t).storage = .retaining →
      (u.tableAt t).owners = (m.world.tableAt t).owners) :
    (s.effect m.world).Undelayed p (s'.effect u) := by
  have hcall : ∀ x ∈ s.needs, ∀ c, x.call? = some c → p c.table := fun x hx c hc =>
    hp c.table (hm.accounted.borrowed x (hn x hx) c hc)
  cases s with
  | newTable k capacity tracked =>
    obtain rfl := Option.some.inj hu
    refine ⟨h.newTable k capacity tracked, ?_, rfl⟩
    show [Token.owner u.tables.size] = [Token.owner m.world.tables.size]
    rw [h.size]
  | share t =>
    obtain rfl := Option.some.inj hu
    exact ⟨h.addOwner t, rfl, rfl⟩
  | disown t =>
    obtain rfl := Option.some.inj hu
    exact hm.accounted.undelayed_disown h (hp t (hn (.owner t) List.mem_cons_self)) (ho t)
  | value text =>
    obtain rfl := Option.some.inj hu
    refine ⟨h.create text hm.lt_size_of_entry, ?_, rfl⟩
    show [Token.handle u.instances.size] = [Token.handle m.world.instances.size]
    rw [h.instances]
  | clone i =>
    obtain rfl := Option.some.inj hu
    exact ⟨h.addHandle (hm.accounted.isLive (hn (.handle i) List.mem_cons_self) List.mem_cons_self),
      rfl, rfl⟩
  | release i => exact absurd rfl (hs i)
  | normalize =>
    obtain rfl := Option.some.inj hu
    exact ⟨h.withJournal _ _, rfl, rfl⟩
  | lookup t key =>
    obtain rfl := Option.some.inj hu
    exact undelayed_lookup h (hp t (hn (.owner t) List.mem_cons_self)) key
  | begin t f a =>
    obtain rfl := Option.some.inj hu
    have hv : a.value u = a.value m.world := by
      cases a with
      | handle i => exact h.text i
      | text => rfl
    refine ⟨h.withJournal _ _, ?_, rfl⟩
    show [Token.owner t, .called ⟨t, f.key (a.value u), a⟩] =
      [Token.owner t, .called ⟨t, f.key (a.value m.world), a⟩]
    rw [hv]
  | check c =>
    obtain rfl := Option.some.inj hu
    exact undelayed_check h (hcall _ List.mem_cons_self c rfl)
  | enter c =>
    obtain rfl := Option.some.inj hu
    exact hm.undelayed_enter h (hcall _ List.mem_cons_self c rfl) (hn _ List.mem_cons_self)
  | record c o =>
    obtain rfl := Option.some.inj hu
    refine ⟨h.record c o o.unstale, ?_, rfl⟩
    show [Token.handle o.unstale.canonical] = [Token.handle o.canonical]
    rw [o.canonical_unstale]
  | detach | settle => cases hu

end Machine

/-! ### Hands -/

namespace Token

theorem undelayed_eq_owner {x : Token} {t : TableId} :
    x.undelayed? = some (.owner t) ↔ x = .owner t := by
  cases x <;> simp [undelayed?]

theorem call?_undelayed {x y : Token} (h : x.undelayed? = some y) : y.call? = x.call? := by
  cases x <;> simp [undelayed?] at h <;> subst h <;> rfl

end Token

theorem count_owner_undelayed (hand : Multiset Token) (t : TableId) :
    (hand.filterMap Token.undelayed?).count (.owner t) = hand.count (.owner t) := by
  induction hand using Multiset.induction with
  | empty => rfl
  | cons x hand ih =>
    cases hx : x.undelayed? with
    | none =>
      have hne : Token.owner t ≠ x := by
        rintro rfl
        cases hx
      rw [Multiset.filterMap_cons_none _ _ hx, ih, Multiset.count_cons_of_ne hne]
    | some y =>
      rw [Multiset.filterMap_cons_some _ _ _ hx, Multiset.count_cons, Multiset.count_cons, ih]
      by_cases hxt : x = .owner t
      · subst hxt
        obtain rfl := Option.some.inj hx
        rfl
      · have hyt : Token.owner t ≠ y := fun hc =>
          hxt (Token.undelayed_eq_owner.1 (hx.trans (congrArg some hc.symm)))
        rw [if_neg (Ne.symm hxt), if_neg hyt]

theorem owner_mem_undelayed {hand : Multiset Token} {t : TableId} :
    .owner t ∈ hand.filterMap Token.undelayed? ↔ .owner t ∈ hand := by
  rw [← Multiset.count_pos, count_owner_undelayed, Multiset.count_pos]

/-- Where no reclamation keeps a table, it is owned by its clients only. -/
theorem ownersIn_eq_count {hand : Multiset Token} {t : TableId}
    (ho : ∀ r, .owed r ∈ hand → r.table ≠ t) (hd : ∀ r b, .detached r b ∈ hand → r.table ≠ t) :
    ownersIn hand t = hand.count (.owner t) := by
  induction hand using Multiset.induction with
  | empty => rfl
  | cons x hand ih =>
    have ih := ih (fun r hr => ho r (Multiset.mem_cons_of_mem hr))
      fun r b hr => hd r b (Multiset.mem_cons_of_mem hr)
    have hx : x.owners.count t = if .owner t = x then 1 else 0 := by
      cases x with
      | owner u =>
        rw [count_owner]
        simp
      | owed r =>
        have hr := ho r (Multiset.mem_cons_self _ _)
        simp [Token.owners, hr]
      | detached r b =>
        have hr := hd r b (Multiset.mem_cons_self _ _)
        simp [Token.owners, hr]
      | handle | called | missed | entered => rfl
    unfold ownersIn at ih ⊢
    rw [Multiset.map_cons, Multiset.sum_cons, Multiset.count_cons, ih, hx, Nat.add_comm]

/-- An owner comes from an owner, or with a new table. -/
theorem Step.owner_of_gains {s : Step} {w : World} {t : TableId}
    (h : .owner t ∈ (s.effect w).gains) : .owner t ∈ s.needs ∨ t = w.tables.size := by
  have hmap : ∀ is : List InstanceId, Token.owner t ∉ is.map .handle := by
    intro is hc
    obtain ⟨i, -, hi⟩ := List.mem_map.1 hc
    cases hi
  have hanswered : ∀ c o w', Token.owner t ∉ (Call.answered c o w').gains := by
    intro c o w' hc
    rcases List.mem_cons.1 hc with hc | hc
    · cases hc
    · exact hmap _ hc
  cases s with
  | newTable k capacity tracked => exact .inr (Token.owner.inj (List.mem_singleton.1 h))
  | share u =>
    simp only [effect, List.mem_cons, List.not_mem_nil, or_false, or_self] at h
    exact .inl (h ▸ List.mem_cons_self)
  | lookup u key =>
    rcases List.mem_cons.1 h with h | h
    · exact .inl (h ▸ List.mem_cons_self)
    · exact absurd h (hmap _)
  | begin u f a =>
    rcases List.mem_cons.1 h with h | h
    · exact .inl (h ▸ List.mem_cons_self)
    · cases List.mem_singleton.1 h
  | disown u => exact absurd h (hmap _)
  | check c =>
    rcases effect_check c w with ⟨-, i, j, -, he⟩ | ⟨-, j, he⟩
    · rw [he] at h
      exact absurd h (hanswered _ _ _)
    · rw [he] at h
      cases List.mem_singleton.1 h
  | enter c => exact absurd h (hanswered _ _ _)
  | release i =>
    obtain ⟨r, -, hr⟩ := List.mem_map.1 h
    cases hr
  | value | clone | normalize | record | detach | settle =>
    simp [effect] at h

namespace Machine

variable {σ σ' τ : Machine} {s s' : Step} {t : TableId}

/-- A table that a client owns was owned by one before, since it was made. -/
theorem Keeps.of_step (hm : σ.Accounted) (h : σ.step s = some σ') (hk : σ'.Keeps t) :
    σ.Keeps t := by
  have hext := hm.extends_step h
  obtain ⟨rest, hh, -, rfl⟩ := exists_of_step h
  rcases hk with hk | hk
  · have hk : Token.owner t ∈ rest + ↑(s.effect σ.world).gains := hk
    rcases Multiset.mem_add.1 hk with hk | hk
    · exact .inl (hh ▸ Multiset.mem_add.2 (.inl hk))
    · rcases Step.owner_of_gains (Multiset.mem_coe.1 hk) with hk | rfl
      · exact .inl (mem_of_needs hh _ hk)
      · exact .inr (Nat.le_refl _)
  · exact .inr (Nat.le_trans hext.tables hk)

/-- A table that is kept and has an entry is owned. -/
theorem Keeps.owner_mem {k : String} {i : InstanceId} (hk : σ.Keeps t)
    (h : (σ.world.entries t).get? k = some i) : .owner t ∈ σ.hand :=
  hk.resolve_right (Nat.not_le.2 (World.lt_size_of_entry h))

/-- A retaining table is owned by its clients only. -/
theorem Sound.owners_retaining (hm : σ.Sound) (hs : (σ.world.tableAt t).storage = .retaining) :
    (σ.world.tableAt t).owners = σ.hand.count (.owner t) := by
  have hne := hm.registered.not_reclaimed hs
  rw [hm.accounted.owners]
  exact ownersIn_eq_count (fun r hr => hne r (mem_reclamations_of_owed hr)) fun r _ hr =>
    hne r (mem_reclamations_of_detached hr)

/-- In a prompt run every table is. -/
theorem Prompt.owners (hm : τ.Sound) (hp : τ.Prompt) (t : TableId) :
    (τ.world.tableAt t).owners = τ.hand.count (.owner t) := by
  rw [hm.accounted.owners]
  refine ownersIn_eq_count (fun r hr => ?_) fun r b hr => ?_
  · have ho : r ∈ τ.owed := (Multiset.mem_filterMap _ _).2 ⟨_, hr, rfl⟩
    rw [hp.owed] at ho
    exact absurd ho (Multiset.notMem_zero _)
  · have hd : (r, b) ∈ τ.detached := (Multiset.mem_filterMap _ _).2 ⟨_, hr, rfl⟩
    rw [hp.detached] at hd
    exact absurd hd (Multiset.notMem_zero _)

/-- The last handle to an instance that is stored is one to an instance registered there. -/
theorem Sound.registration_of_entry (hm : σ.Sound) {i : InstanceId} (hi : .handle i ∈ σ.hand)
    {k : String} (he : (σ.world.entries t).get? k = some i) (h₁ : σ.world.handles i < 2) :
    σ.world.registration i = some ⟨t, k⟩ := by
  cases hs : (σ.world.tableAt t).storage with
  | reclaiming => exact hm.registered.entry t k i hs he
  | retaining =>
    have hhand := count_le_handlesIn hi i
    have hin : (Token.handle i).handles.count i = 1 := List.count_singleton_self
    have hret : 0 < (σ.world.tableAt t).retains i := by
      rw [Table.retains, hs]
      exact List.count_pos_iff.2 (KeyMap.mem_values_iff.2 ⟨k, he⟩)
    have hle := World.retains_le_retained (World.lt_size_of_entry he) i
    have hsum := hm.accounted.handles i
    omega

end Machine

end Interning
