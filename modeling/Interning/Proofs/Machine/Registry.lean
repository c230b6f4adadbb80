import Interning.Proofs.Machine.Growth
import Interning.Proofs.Machine.Hands

/-!
# Registrations, entries and reclamations

What a reclaiming table stores, which instances are registered with it, and which reclamations are
under way belong together.  The invariant relates them for every order of steps: many instances of
one key may be gone and wait for their reclamation while a newer one is stored.

    a live registered instance is stored under its key                       (Registered.stored)
    a reclamation is of a registered instance that is gone                   (Registered.gone)
    there is one for each such instance of a table that is there   (Registered.reclaimed, .once)
    an entry of an instance that is gone waits for its reclamation           (Registered.pending)
    every run from the empty machine ends accounted for and registered       (sound_of_run)
-/

namespace Interning

/-! ## Algorithm -/

/-- How entries, registrations and reclamations belong together. -/
structure Machine.Registered (m : Machine) : Prop where
  /-- Only reclaiming tables register. -/
  reclaiming : ∀ i r, m.world.registration i = some r →
    (m.world.tableAt r.table).storage = .reclaiming
  /-- A stored instance is registered under its key. -/
  entry : ∀ t k i, (m.world.tableAt t).storage = .reclaiming →
    (m.world.entries t).get? k = some i → m.world.registration i = some ⟨t, k⟩
  /-- A registered instance is stored as long as it is live. -/
  stored : ∀ i t k, m.world.registration i = some ⟨t, k⟩ → m.world.isLive i = true →
    (m.world.entries t).get? k = some i
  /-- A reclamation is of a registered instance that is gone. -/
  gone : ∀ r ∈ m.reclamations,
    m.world.registration r.gone = some ⟨r.table, r.key⟩ ∧ m.world.isLive r.gone = false
  /-- No instance is reclaimed twice. -/
  once : (m.reclamations.map Reclamation.gone).Nodup
  /-- A registered instance that is gone is reclaimed. -/
  reclaimed : ∀ i t k, m.world.isOwned t = true → m.world.registration i = some ⟨t, k⟩ →
    m.world.isLive i = false → ⟨t, k, i⟩ ∈ m.reclamations
  /-- As long as its entry is there, the reclamation is still to come. -/
  pending : ∀ t k i, m.world.isOwned t = true → (m.world.tableAt t).storage = .reclaiming →
    (m.world.entries t).get? k = some i → m.world.isLive i = false → ⟨t, k, i⟩ ∈ m.owed

/-- Nothing changes that concerns registered instances and reclaiming tables. -/
structure World.Quiet (w w' : World) : Prop where
  registration : ∀ i, w'.registration i = w.registration i
  isLive : ∀ i r, w.registration i = some r → w'.isLive i = w.isLive i
  entries : ∀ t, (w.tableAt t).storage = .reclaiming →
    (w'.tableAt t).storage = .reclaiming ∧ w'.entries t = w.entries t
  /-- A table made meanwhile has no entry. -/
  made : ∀ t k i, (w'.tableAt t).storage = .reclaiming → (w'.entries t).get? k = some i →
    (w.tableAt t).storage = .reclaiming
  owned : ∀ t, (w.tableAt t).storage = .reclaiming → w'.isOwned t = true → w.isOwned t = true

/-- What is in hand is there, and registrations are in order. -/
structure Machine.Sound (m : Machine) : Prop where
  accounted : m.Accounted
  registered : m.Registered

/-! ## Lemmas -/

/-! ### Quiet changes -/

namespace World

variable {w w₁ w₂ : World}

theorem Quiet.refl (w : World) : w.Quiet w :=
  ⟨fun _ => rfl, fun _ _ _ => rfl, fun _ h => ⟨h, rfl⟩, fun _ _ _ h _ => h, fun _ _ h => h⟩

theorem Quiet.trans (h : w.Quiet w₁) (h' : w₁.Quiet w₂) : w.Quiet w₂ where
  registration i := (h'.registration i).trans (h.registration i)
  isLive i r hr :=
    (h'.isLive i r ((h.registration i).trans hr)).trans (h.isLive i r hr)
  entries t ht :=
    have h₁ := h.entries t ht
    have h₂ := h'.entries t h₁.1
    ⟨h₂.1, h₂.2.trans h₁.2⟩
  made t k i ht hk := by
    have h₁ := h'.made t k i ht hk
    rw [(h'.entries t h₁).2] at hk
    exact h.made t k i h₁ hk
  owned t ht ho := h.owned t ht (h'.owned t (h.entries t ht).1 ho)

theorem Quiet.withJournal (h : w.Quiet w₁) (j : Array Act) : w.Quiet (w₁.withJournal j) := by
  obtain ⟨h₁, h₂, h₃, h₄, h₅⟩ := h
  exact ⟨h₁, h₂, h₃, h₄, h₅⟩

/-- Only instances and tables count. -/
theorem Quiet.congr (h : w.Quiet w₁) (hi : w₂.instances = w₁.instances)
    (ht : w₂.tables = w₁.tables) : w.Quiet w₂ := by
  have hw : w₂ = { w₁ with tracker := w₂.tracker, journal := w₂.journal } := by
    cases w₂; cases w₁; cases hi; cases ht; rfl
  rw [hw]
  obtain ⟨h₁, h₂, h₃, h₄, h₅⟩ := h
  exact ⟨h₁, h₂, h₃, h₄, h₅⟩

theorem quiet_addHandle {i : InstanceId} (hi : w.isLive i = true) : w.Quiet (w.addHandle i) where
  registration j := registration_addHandle i j
  isLive j _ _ := isLive_addHandle hi j
  entries _ h := ⟨h, rfl⟩
  made _ _ _ h _ := h
  owned _ _ h := h

theorem quiet_create (s : String) : w.Quiet (w.create s).2 where
  registration j := registration_create s j
  isLive j r hr := by
    rw [isLive_create, beq_false_of_ne (Nat.ne_of_lt (lt_size_of_registration hr)), Bool.or_false]
  entries _ h := ⟨h, rfl⟩
  made _ _ _ h _ := h
  owned _ _ h := h

/-- The release of a handle concerns no table, unless it is the last one of a registered instance.
-/
theorem quiet_loseHandle {i : InstanceId} (h : w.handles i ≠ 1 ∨ w.registration i = none) :
    w.Quiet (w.loseHandle i) where
  registration j := registration_loseHandle i j
  isLive j r hr := by
    refine isLive_loseHandle_of_ne fun hj => h.resolve_right fun hc => ?_
    subst hj
    cases hc.symm.trans hr
  entries _ h := ⟨h, rfl⟩
  made _ _ _ h _ := h
  owned _ _ h := h

theorem quiet_modifyTable {t : TableId} {f : Table → Table}
    (hs : (f (w.tableAt t)).storage = (w.tableAt t).storage)
    (he : (w.tableAt t).storage = .reclaiming → (f (w.tableAt t)).entries = w.entries t)
    (ho : (w.tableAt t).owners = 0 → (f (w.tableAt t)).owners = 0) :
    w.Quiet (w.modifyTable t f) where
  registration _ := rfl
  isLive _ _ _ := rfl
  entries u hu := by
    rw [entries, tableAt_modifyTable]
    split
    · next h => obtain ⟨rfl, -⟩ := h; exact ⟨hs.trans hu, he hu⟩
    · exact ⟨hu, rfl⟩
  made u k i hu _ := by
    rw [tableAt_modifyTable] at hu
    split at hu
    · next h => obtain ⟨rfl, -⟩ := h; exact hs.symm.trans hu
    · exact hu
  owned u _ h := by
    rw [isOwned_iff, tableAt_modifyTable] at h
    rw [isOwned_iff]
    split at h
    · next hc =>
      obtain ⟨rfl, -⟩ := hc
      exact Nat.pos_of_ne_zero fun hz => absurd (ho hz) (Nat.ne_of_gt h)
    · exact h

theorem quiet_newTable (k : Storage) (capacity : UInt64) (tracked : Bool) :
    w.Quiet (w.newTable k capacity tracked).2 := by
  -- Where the new table is, there was none, and none is retaining by default.
  have hd : ∀ t, (w.tableAt t).storage = .reclaiming → t ≠ w.tables.size := by
    rintro t ht rfl
    rw [tableAt, Array.getElem?_eq_none (Nat.le_refl _)] at ht
    cases ht
  refine ⟨fun _ => rfl, fun _ _ _ => rfl, fun t ht => ?_, fun t key i ht hi => ?_,
    fun t ht ho => ?_⟩
  · rw [entries, tableAt_newTable, if_neg (hd t ht)]
    exact ⟨ht, rfl⟩
  · rw [entries, tableAt_newTable] at hi
    rw [tableAt_newTable] at ht
    split at hi
    · cases hi
    · next h => rwa [if_neg h] at ht
  · rw [isOwned, tableAt_newTable, if_neg (hd t ht)] at ho
    exact ho

/-- A call that stores nothing in a reclaiming table concerns none. -/
theorem quiet_install {t : TableId} {key : String} {x : InstanceId}
    (hs : (w.tableAt t).storage = .retaining) (hx : w.isLive x = true) :
    w.Quiet (w.install t key x) := by
  simp only [install, hs]
  refine (quiet_addHandle hx).trans (quiet_modifyTable rfl (fun h => ?_) fun h => h)
  cases hs.symm.trans h

end World

theorem Call.Provides.quiet {w w₁ : World} {c : Call} {x : InstanceId}
    {rejected : Option InstanceId} (h : c.Provides w x rejected w₁) : w.Quiet w₁ := by
  cases h with
  | given => exact .refl w
  | fresh | copy => exact World.quiet_create _

namespace Machine.Registered

variable {m m' : Machine}

theorem of_quiet (hm : m.Registered) (hw : m.world.Quiet m'.world) (ho : m'.owed = m.owed)
    (hr : m'.reclamations = m.reclamations) : m'.Registered where
  reclaiming i r h := by
    rw [hw.registration] at h
    exact (hw.entries r.table (hm.reclaiming i r h)).1
  entry t k i ht hk := by
    have ht' := hw.made t k i ht hk
    rw [(hw.entries t ht').2] at hk
    rw [hw.registration]
    exact hm.entry t k i ht' hk
  stored i t k h hl := by
    rw [hw.registration] at h
    rw [hw.isLive i _ h] at hl
    rw [(hw.entries t (hm.reclaiming i _ h)).2]
    exact hm.stored i t k h hl
  gone r h := by
    rw [hr] at h
    obtain ⟨h₁, h₂⟩ := hm.gone r h
    rw [hw.registration, hw.isLive _ _ h₁]
    exact ⟨h₁, h₂⟩
  once := by
    rw [hr]
    exact hm.once
  reclaimed i t k hown h hl := by
    rw [hw.registration] at h
    rw [hw.isLive i _ h] at hl
    rw [hr]
    exact hm.reclaimed i t k (hw.owned t (hm.reclaiming i _ h) hown) h hl
  pending t k i hown ht hk hl := by
    have ht' := hw.made t k i ht hk
    rw [(hw.entries t ht').2] at hk
    rw [hw.isLive i _ (hm.entry t k i ht' hk)] at hl
    rw [ho]
    exact hm.pending t k i (hw.owned t ht' hown) ht' hk hl

/-! ### The last release of a registered instance -/

theorem of_lastRelease (hm : m.Registered) {i : InstanceId} {r : Registration}
    {l : List Reclamation} (hi : m.world.isLive i = true) (hr : m.world.registration i = some r)
    (hl : l = if m.world.isOwned r.table = true then [⟨r.table, r.key, i⟩] else [])
    (hreg : ∀ j, m'.world.registration j = m.world.registration j)
    (hlive : ∀ j, m'.world.isLive j = (m.world.isLive j && j != i))
    (hstorage : ∀ t, (m'.world.tableAt t).storage = (m.world.tableAt t).storage)
    (hentries : ∀ t, m'.world.entries t = m.world.entries t)
    (howned : ∀ t, m'.world.isOwned t = m.world.isOwned t) (ho : m'.owed = m.owed + ↑l)
    (hrec : m'.reclamations = m.reclamations + ↑l) : m'.Registered := by
  have hmem : ∀ x ∈ l, x = ⟨r.table, r.key, i⟩ := by
    intro x hx
    rw [hl] at hx
    split at hx
    · exact List.mem_singleton.1 hx
    · cases hx
  -- An instance that is gone now was gone before, or it is the one released and its table is told.
  have hgone : ∀ j t k, m.world.isOwned t = true → m.world.registration j = some ⟨t, k⟩ →
      m'.world.isLive j = false → m.world.isLive j = false ∨ ⟨t, k, j⟩ ∈ l := by
    intro j t k hown hj hjl
    rw [hlive, Bool.and_eq_false_iff] at hjl
    rcases hjl with hjl | hjl
    · exact .inl hjl
    · refine .inr ?_
      obtain rfl : j = i := by simpa using hjl
      obtain rfl := Option.some.inj (hr.symm.trans hj)
      rw [hl, if_pos hown]
      exact List.mem_singleton.2 rfl
  constructor
  case reclaiming =>
    intro j q h
    rw [hreg] at h
    rw [hstorage]
    exact hm.reclaiming j q h
  case entry =>
    intro t k j ht hk
    rw [hstorage] at ht
    rw [hentries] at hk
    rw [hreg]
    exact hm.entry t k j ht hk
  case stored =>
    intro j t k h hjl
    rw [hreg] at h
    rw [hlive, Bool.and_eq_true] at hjl
    rw [hentries]
    exact hm.stored j t k h hjl.1
  case gone =>
    intro x hx
    rw [hrec, Multiset.mem_add, Multiset.mem_coe] at hx
    rw [hreg, hlive, Bool.and_eq_false_iff]
    rcases hx with hx | hx
    · exact ⟨(hm.gone x hx).1, .inl (hm.gone x hx).2⟩
    · rw [hmem x hx]
      exact ⟨hr, .inr (by simp)⟩
  case once =>
    rw [hrec, Multiset.map_add, Multiset.nodup_add, Multiset.map_coe]
    refine ⟨hm.once, ?_, ?_⟩
    · rw [hl]
      split
      · exact List.nodup_singleton _
      · exact List.nodup_nil
    · rw [Multiset.disjoint_left]
      intro j hj hjl
      obtain ⟨x, hx, rfl⟩ := Multiset.mem_map.1 hj
      obtain ⟨y, hy, hxy⟩ := List.mem_map.1 (Multiset.mem_coe.1 hjl)
      rw [hmem y hy] at hxy
      have h := (hm.gone x hx).2
      rw [← hxy, hi] at h
      cases h
  case reclaimed =>
    intro j t k hown h hjl
    rw [howned] at hown
    rw [hreg] at h
    rw [hrec, Multiset.mem_add, Multiset.mem_coe]
    rcases hgone j t k hown h hjl with hd | hmem
    · exact .inl (hm.reclaimed j t k hown h hd)
    · exact .inr hmem
  case pending =>
    intro t k j hown ht hk hjl
    rw [howned] at hown
    rw [hstorage] at ht
    rw [hentries] at hk
    rw [ho, Multiset.mem_add, Multiset.mem_coe]
    rcases hgone j t k hown (hm.entry t k j ht hk) hjl with hd | hmem
    · exact .inl (hm.pending t k j hown ht hk hd)
    · exact .inr hmem

/-! ### Storing an instance -/

theorem of_install (hm : m.Registered) {t : TableId} {key : String} {x : InstanceId} {w₁ : World}
    {a : Array Act} (hw : m.world.Quiet w₁) (htables : ∀ u, w₁.tableAt u = m.world.tableAt u)
    (hs : (m.world.tableAt t).storage = .reclaiming) (hx : w₁.isLive x = true)
    (hr : w₁.registration x = none) (hf : m.world.live? t key = none)
    (he : m'.world = (w₁.install t key x).withJournal a)
    (ho : m'.owed = m.owed) (hrec : m'.reclamations = m.reclamations) : m'.Registered := by
  have ht : t < w₁.tables.size := World.lt_size_of_reclaiming (by rw [htables]; exact hs)
  have hreg : ∀ j, m'.world.registration j =
      if j = x then some ⟨t, key⟩ else m.world.registration j := by
    intro j
    rw [he, ← hw.registration]
    exact World.registration_install key (by rw [htables]; exact hs) (World.lt_size_of_isLive hx) j
  have hlive : ∀ j, m'.world.isLive j = w₁.isLive j := by
    intro j
    rw [he]
    exact World.isLive_install hx j
  have hstorage : ∀ u, (m'.world.tableAt u).storage = (m.world.tableAt u).storage := by
    intro u
    rw [he, ← htables]
    exact World.storage_install t key x u
  have howned : ∀ u, m'.world.isOwned u = m.world.isOwned u := by
    intro u
    rw [he, World.isOwned, World.isOwned, ← htables, World.tableAt_withJournal,
      World.owners_install]
  have hget : ∀ u k j, (m'.world.entries u).get? k = some j ↔
      (u = t ∧ k = key ∧ j = x) ∨ (¬(u = t ∧ k = key) ∧ (m.world.entries u).get? k = some j) := by
    intro u k j
    have h := World.get?_install ht key x u k j
    rw [show w₁.entries u = m.world.entries u from congrArg Table.entries (htables u)] at h
    rw [he]
    exact h
  have hnx : ∀ j q, m.world.registration j = some q → j ≠ x := by
    rintro j q h rfl
    rw [hw.registration, h] at hr
    cases hr
  constructor
  case reclaiming =>
    intro j q h
    rw [hstorage]
    rw [hreg] at h
    split at h
    · obtain rfl := Option.some.inj h
      exact hs
    · exact hm.reclaiming j q h
  case entry =>
    intro u k j hu hk
    rw [hstorage] at hu
    rcases (hget u k j).1 hk with ⟨rfl, rfl, rfl⟩ | ⟨-, hk⟩
    · rw [hreg, if_pos rfl]
    · have h := hm.entry u k j hu hk
      rwa [hreg, if_neg (hnx j _ h)]
  case stored =>
    intro j u k h hjl
    rw [hlive] at hjl
    rw [hreg] at h
    split at h
    · next hj =>
      obtain ⟨rfl, rfl⟩ := Registration.mk.inj (Option.some.inj h)
      exact (hget t key j).2 (.inl ⟨rfl, rfl, hj⟩)
    · rw [hw.isLive j _ h] at hjl
      have hst := hm.stored j u k h hjl
      -- What the call did not find live under its key is not live.
      refine (hget u k j).2 (.inr ⟨?_, hst⟩)
      rintro ⟨rfl, rfl⟩
      have hd := World.live?_eq_none_iff.1 hf j hst
      rw [hjl] at hd
      cases hd
  case gone =>
    intro q hq
    rw [hrec] at hq
    obtain ⟨h₁, h₂⟩ := hm.gone q hq
    rw [hreg, if_neg (hnx _ _ h₁), hlive, hw.isLive _ _ h₁]
    exact ⟨h₁, h₂⟩
  case once =>
    rw [hrec]
    exact hm.once
  case reclaimed =>
    intro j u k hu h hjl
    rw [howned] at hu
    rw [hlive] at hjl
    rw [hreg] at h
    rw [hrec]
    split at h
    · next hj =>
      rw [hj, hx] at hjl
      cases hjl
    · rw [hw.isLive j _ h] at hjl
      exact hm.reclaimed j u k hu h hjl
  case pending =>
    intro u k j hown hu hk hjl
    rw [howned] at hown
    rw [hstorage] at hu
    rw [hlive] at hjl
    rw [ho]
    rcases (hget u k j).1 hk with ⟨rfl, rfl, rfl⟩ | ⟨-, hk⟩
    · rw [hx] at hjl
      cases hjl
    · rw [hw.isLive j _ (hm.entry u k j hu hk)] at hjl
      exact hm.pending u k j hown hu hk hjl

/-! ### Looking at the entry of an instance that is gone -/

theorem of_detach (hm : m.Registered) {r : Reclamation}
    (he : m'.world = ((Step.detach r).effect m.world).world) (ho : m.owed = m'.owed + ↑[r])
    (hrec : m'.reclamations = m.reclamations) : m'.Registered := by
  have hinst : m'.world.instances = m.world.instances := by rw [he, Step.instances_detach]
  have hreg : ∀ j, m'.world.registration j = m.world.registration j := by
    intro j
    rw [World.registration, World.instanceAt, hinst]
    rfl
  have hlive : ∀ j, m'.world.isLive j = m.world.isLive j := by
    intro j
    rw [World.isLive, World.handles, World.instanceAt, hinst]
    rfl
  have hstorage : ∀ u, (m'.world.tableAt u).storage = (m.world.tableAt u).storage := by
    intro u
    obtain ⟨e, h⟩ := Step.tableAt_detach m.world r u
    rw [he, h]
  have howned : ∀ u, m'.world.isOwned u = m.world.isOwned u := by
    intro u
    obtain ⟨e, h⟩ := Step.tableAt_detach m.world r u
    rw [he, World.isOwned, h]
    rfl
  have hget : ∀ t k i, (m'.world.entries t).get? k = some i ↔
      (m.world.entries t).get? k = some i ∧ (⟨t, k, i⟩ : Reclamation) ≠ r := by
    intro t k i
    rw [he]
    exact Step.get?_detach _ r t k i
  have hr : r ∈ m.reclamations := by
    rw [Machine.reclamations, ho]
    simp
  constructor
  case reclaiming =>
    intro j q h
    rw [hreg] at h
    rw [hstorage]
    exact hm.reclaiming j q h
  case entry =>
    intro t k j ht hk
    rw [hstorage] at ht
    rw [hreg]
    exact hm.entry t k j ht ((hget t k j).1 hk).1
  case stored =>
    intro j t k h hjl
    rw [hreg] at h
    rw [hlive] at hjl
    refine (hget t k j).2 ⟨hm.stored j t k h hjl, ?_⟩
    -- The reclamation is of an instance that is gone.
    rintro rfl
    have hd := (hm.gone _ hr).2
    rw [hjl] at hd
    cases hd
  case gone =>
    intro q hq
    rw [hrec] at hq
    rw [hreg, hlive]
    exact hm.gone q hq
  case once =>
    rw [hrec]
    exact hm.once
  case reclaimed =>
    intro j t k hown h hjl
    rw [howned] at hown
    rw [hreg] at h
    rw [hlive] at hjl
    rw [hrec]
    exact hm.reclaimed j t k hown h hjl
  case pending =>
    intro t k j hown ht hk hjl
    rw [howned] at hown
    rw [hstorage] at ht
    rw [hlive] at hjl
    obtain ⟨hk, hne⟩ := (hget t k j).1 hk
    have h := hm.pending t k j hown ht hk hjl
    rw [ho, Multiset.mem_add, Multiset.mem_coe, List.mem_singleton] at h
    exact h.resolve_right hne

end Machine.Registered

namespace Machine

variable {m m' : Machine} {s : Step}

/-- Every step other than a release, a last look and the look of a reclamation is quiet. -/
theorem Accounted.quiet (hm : m.Accounted) (hs : ∀ x ∈ s.needs, x ∈ m.hand)
    (hrelease : ∀ i, s ≠ .release i) (henter : ∀ c, s ≠ .enter c) (hdetach : ∀ r, s ≠ .detach r) :
    m.world.Quiet (s.effect m.world).world := by
  have hown : ∀ t, m.world.Quiet (m.world.removeOwner t) := by
    intro t
    refine World.quiet_modifyTable rfl (fun _ => rfl) fun h => ?_
    show (m.world.tableAt t).owners - 1 = 0
    omega
  cases s with
  | newTable k capacity tracked => exact World.quiet_newTable k capacity tracked
  | share t =>
    have ho := World.isOwned_iff.1
      (hm.isOwned (hs (.owner t) List.mem_cons_self) List.mem_cons_self)
    exact World.quiet_modifyTable rfl (fun _ => rfl) fun h => absurd h (by omega)
  | disown t =>
    rw [Step.effect_disown]
    split
    · next hc =>
      refine (hown t).trans (World.quiet_modifyTable rfl (fun h => ?_) fun h => h)
      rw [World.storage_removeOwner, hc.2] at h
      cases h
    · exact hown t
  | value text => exact World.quiet_create text
  | clone i =>
    exact World.quiet_addHandle (hm.isLive (hs (.handle i) List.mem_cons_self) List.mem_cons_self)
  | release i => exact absurd rfl (hrelease i)
  | normalize => exact (World.Quiet.refl m.world).withJournal _
  | lookup t key =>
    obtain ⟨j, he⟩ := Step.effect_lookup t key m.world
    rw [he]
    refine World.Quiet.withJournal ?_ j
    cases h : m.world.live? t key with
    | none => exact .refl m.world
    | some i => exact World.quiet_addHandle (World.isLive_of_live? h)
  | begin t f a => exact (World.Quiet.refl m.world).withJournal _
  | check c =>
    rcases Step.effect_check c m.world with ⟨-, i, j, hl, he⟩ | ⟨-, j, he⟩
    · rw [he]
      exact (World.quiet_addHandle (World.isLive_of_live? hl)).withJournal j
    · rw [he]
      exact (World.Quiet.refl m.world).withJournal j
  | enter c => exact absurd rfl (henter c)
  | record c o =>
    have h : m.world.Quiet (m.world.count c.table (c.counted o m.world)) :=
      World.quiet_modifyTable rfl (fun _ => rfl) fun h => h
    exact h.congr (c.instances_record o m.world) (c.tables_record o m.world)
  | detach r => exact absurd rfl (hdetach r)
  | settle r removed =>
    let w₁ := m.world.count r.table
      (.reclaim removed (World.entryBytes r.key (m.world.text r.gone)))
    have h₁ : m.world.Quiet w₁ := World.quiet_modifyTable rfl (fun _ => rfl) fun h => h
    have h₂ : w₁.Quiet (w₁.removeOwner r.table) := by
      refine World.quiet_modifyTable rfl (fun _ => rfl) fun h => ?_
      show (w₁.tableAt r.table).owners - 1 = 0
      omega
    exact (h₁.trans h₂).congr (r.instances_settle removed m.world) (r.tables_settle removed m.world)

/-- The reclamation of an instance that is registered belongs to a reclaiming table. -/
theorem Registered.reclaiming_of_owed (hm : m.Registered) {r : Reclamation}
    (hr : .owed r ∈ m.hand) :
    (m.world.tableAt r.table).storage = .reclaiming :=
  hm.reclaiming r.gone _ (hm.gone r (mem_reclamations_of_owed hr)).1

/-- A retaining table has no reclamations. -/
theorem Registered.not_reclaimed (hm : m.Registered) {t : TableId}
    (hs : (m.world.tableAt t).storage = .retaining) : ∀ r ∈ m.reclamations, r.table ≠ t := by
  rintro r hr rfl
  rw [hm.reclaiming _ _ (hm.gone r hr).1] at hs
  cases hs

theorem Sound.registered_release (hm : m.Sound) {i : InstanceId}
    (h : m.step (.release i) = some m') : m'.Registered := by
  have ho := owed_step h
  have hrec := reclamations_step h
  have hn : m'.owed + ↑(Step.release i).detaching.toList = m'.owed := add_zero _
  rw [hn, ← Step.owed_gains] at ho
  rw [← Step.owed_gains] at hrec
  obtain ⟨rest, hh, -, rfl⟩ := exists_of_step h
  have hi := hm.accounted.isLive (mem_of_needs hh (.handle i) List.mem_cons_self) List.mem_cons_self
  rcases Step.effect_release i m.world with ⟨r, j, h1, hr, hown, he⟩ | ⟨hn, j, he⟩
  · have hw : (m.next (.release i) rest).world =
        ((m.world.loseHandle i).addOwner r.table).withJournal j := by
      show ((Step.release i).effect m.world).world = _
      rw [he]
    rw [he] at ho hrec
    refine hm.registered.of_lastRelease (l := [⟨r.table, r.key, i⟩]) hi hr (if_pos hown).symm
      ?_ ?_ ?_ ?_ ?_ ho hrec
    · intro k
      rw [hw]
      exact World.registration_loseHandle i k
    · intro k
      rw [hw]
      exact World.isLive_loseHandle_of_last h1 k
    · intro t
      rw [hw]
      exact World.field_modifyTable Table.storage (fun _ => by rfl) r.table t
    · intro t
      rw [hw]
      exact World.field_modifyTable Table.entries (fun _ => by rfl) r.table t
    · intro t
      have hsize := World.lt_size_of_isOwned hown
      rw [hw]
      show decide (0 < (((m.world.loseHandle i).addOwner r.table).tableAt t).owners) =
        decide (0 < (m.world.tableAt t).owners)
      rw [World.owners_addOwner (w := m.world.loseHandle i) hsize, decide_eq_decide]
      show 0 < (m.world.tableAt t).owners + _ ↔ _
      by_cases ht : t = r.table
      · subst ht
        have := World.isOwned_iff.1 hown
        omega
      · rw [if_neg ht, Nat.add_zero]
  · have hw : (m.next (.release i) rest).world = (m.world.loseHandle i).withJournal j := by
      show ((Step.release i).effect m.world).world = _
      rw [he]
    rw [he] at ho hrec
    cases hr : m.world.registration i with
    | none =>
      refine hm.registered.of_quiet ?_ (ho.trans (add_zero _)) (hrec.trans (add_zero _))
      rw [hw]
      exact (World.quiet_loseHandle (.inr hr)).withJournal j
    | some r =>
      by_cases h1 : m.world.handles i = 1
      · have hown : ¬m.world.isOwned r.table = true := by
          rw [hn h1 r hr]
          exact Bool.false_ne_true
        refine hm.registered.of_lastRelease (l := []) hi hr (if_neg hown).symm
          ?_ ?_ ?_ ?_ ?_ ho hrec
        · intro k
          rw [hw]
          exact World.registration_loseHandle i k
        · intro k
          rw [hw]
          exact World.isLive_loseHandle_of_last h1 k
        · exact fun t => by rw [hw]; rfl
        · exact fun t => by rw [hw]; rfl
        · exact fun t => by rw [hw]; rfl
      · refine hm.registered.of_quiet ?_ (ho.trans (add_zero _)) (hrec.trans (add_zero _))
        rw [hw]
        exact (World.quiet_loseHandle (.inl h1)).withJournal j

theorem Sound.registered_enter (hm : m.Sound) {c : Call} (h : m.step (.enter c) = some m') :
    m'.Registered := by
  have ho : m'.owed = m.owed := by simpa [Step.owes, Step.detaching] using owed_step h
  have hrec : m'.reclamations = m.reclamations := by
    simpa [Step.owes] using reclamations_step h
  obtain ⟨rest, hh, -, rfl⟩ := exists_of_step h
  have hl : ∀ i ∈ c.argument.leftover, m.world.isLive i = true := fun i hi =>
    hm.accounted.isLive (mem_of_needs hh (.missed c) List.mem_cons_self) (Option.mem_toList.2 hi)
  cases hf : m.world.live? c.table c.key with
  | some i =>
    obtain ⟨j, he⟩ := Step.effect_enter_of_some hf
    refine hm.registered.of_quiet ?_ ho hrec
    show m.world.Quiet ((Step.enter c).effect m.world).world
    rw [he]
    exact (World.quiet_addHandle (World.isLive_of_live? hf)).withJournal j
  | none =>
    obtain ⟨x, rejected, w₁, j, hp, he⟩ := Step.effect_enter_of_none hf
    have hw : (m.next (.enter c) rest).world = (w₁.install c.table c.key x).withJournal j := by
      show ((Step.enter c).effect m.world).world = _
      rw [he]
      rfl
    cases hs : (m.world.tableAt c.table).storage with
    | retaining =>
      refine hm.registered.of_quiet ?_ ho hrec
      rw [hw]
      refine (hp.quiet.trans (World.quiet_install ?_ (hp.isLive_self hl))).withJournal j
      rw [hp.tableAt]
      exact hs
    | reclaiming =>
      exact hm.registered.of_install hp.quiet hp.tableAt hs (hp.isLive_self hl)
        (hp.registration_self hs) hf hw ho hrec

theorem Sound.registered_detach (hm : m.Sound) {r : Reclamation}
    (h : m.step (.detach r) = some m') : m'.Registered := by
  have ho : m'.owed + ↑[r] = m.owed := by simpa [Step.owes, Step.detaching] using owed_step h
  have hrec : m'.reclamations = m.reclamations := by
    simpa [Step.owes] using reclamations_step h
  obtain ⟨rest, -, -, rfl⟩ := exists_of_step h
  exact hm.registered.of_detach rfl ho.symm hrec

theorem Sound.step (hm : m.Sound) (h : m.step s = some m') : m'.Sound := by
  refine ⟨hm.accounted.step (fun r hr => hm.registered.reclaiming_of_owed hr) h, ?_⟩
  cases s with
  | release i => exact hm.registered_release h
  | enter c => exact hm.registered_enter h
  | detach r => exact hm.registered_detach h
  | _ =>
    have ho : m'.owed = m.owed := by simpa [Step.owes, Step.detaching] using owed_step h
    have hrec : m'.reclamations = m.reclamations := by
      simpa [Step.owes] using reclamations_step h
    obtain ⟨rest, hh, -, rfl⟩ := exists_of_step h
    have hq := hm.accounted.quiet (mem_of_needs hh) (by simp) (by simp) (by simp)
    exact hm.registered.of_quiet hq ho hrec

theorem sound_empty : Sound {} := by
  refine ⟨accounted_empty, ?_⟩
  have hi : ∀ i, ({} : World).registration i = none := fun _ => rfl
  have ht : ∀ t, (({} : World).tableAt t).storage = .retaining := fun _ => rfl
  constructor
  case reclaiming => exact fun i r h => by cases (hi i).symm.trans h
  case entry => exact fun t k i h => by cases (ht t).symm.trans h
  case stored => exact fun i t k h => by cases (hi i).symm.trans h
  case gone => exact fun r hr => absurd hr (Multiset.notMem_zero r)
  case once => exact Multiset.nodup_zero
  case reclaimed => exact fun i t k _ h => by cases (hi i).symm.trans h
  case pending => exact fun t k i _ h => by cases (ht t).symm.trans h

theorem Sound.of_run (hm : m.Sound) {steps : List Step} (h : run steps m = some m') : m'.Sound :=
  run_induction (fun _ _ _ _ hm h => hm.step h) hm h

/-- Every run from the empty machine ends accounted for and registered. -/
theorem sound_of_run {steps : List Step} (h : run steps {} = some m) : m.Sound :=
  sound_empty.of_run h

/-- What is settled at one point of a run is so at every later one. -/
theorem Sound.extends_run (hm : m.Sound) {steps : List Step} (h : run steps m = some m') :
    m.world.Extends m'.world := by
  have hp : m'.Sound ∧ m.world.Extends m'.world :=
    run_induction (P := fun x => x.Sound ∧ m.world.Extends x.world)
      (fun _ _ _ _ hx h => ⟨hx.1.step h, hx.2.trans (hx.1.accounted.extends_step h)⟩)
      ⟨hm, .refl _⟩ h
  exact hp.2

end Machine

end Interning
