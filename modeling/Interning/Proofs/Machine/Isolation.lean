import Interning.Proofs.Machine.Growth
import Interning.Proofs.World.Operations

/-!
# Registrations are written once, and tables are isolated

In a world of any kind, with any number of tables and instances: the registration of an instance is
set at most once; a call that finds nothing in a reclaiming table stores its argument exactly when
that is not registered yet, in whatever table; and an operation on one table, or the dropping of a
handle, touches another table only by the reclamation of one instance that went.

    a registration, once set, is kept by every step                  (Step.registration_effect)
    what a call stores when it finds nothing       (World.storesOnMiss_intern, retains_on_miss)
    what a call does to another table                              (World.intern_elsewhere)
    all of it for every world                                      (World.isolated)
-/

namespace Interning

/-! ## Algorithm -/

namespace World

/-- A table lost one entry, or none, by the reclamation of an instance that went; nothing else about
it changed. -/
structure Reclaims (w w' : World) (i : InstanceId) (s : TableId) : Prop where
  last : w.handles i = 1
  gone : w'.handles i = 0
  owned : w.isOwned s = true
  table : ∃ key, w.registration i = some ⟨s, key⟩ ∧
    w'.tableAt s = (w.tableAt s).reclaim key i (entryBytes key (w.text i))

/-- What a call leaves that was given an instance and found nothing in a reclaiming table. -/
structure StoresOnMiss (w : World) (t : TableId) (key : String) (i : InstanceId) (o : Outcome)
    (w' : World) : Prop where
  miss : o.isHit = false
  /-- The argument itself is stored exactly when no table registered it before. -/
  itself : o.canonical = i ↔ w.registration i = none
  /-- Otherwise a fresh instance is stored, and the argument keeps its registration. -/
  copy : w.registration i ≠ none →
    o.canonical = w.instances.size ∧ w'.registration i = w.registration i
  text : w'.text o.canonical = w.text i
  stored : (w'.entries t).get? key = some o.canonical
  registered : w'.registration o.canonical = some ⟨t, key⟩

/-- What an operation may touch besides the table that it works on. -/
structure Isolated (w : World) : Prop where
  /-- No piece of an operation changes a registration that is set, and no whole operation does. -/
  registration : ∀ i r, w.registration i = some r →
    (∀ s : Step, (s.effect w).world.registration i = some r) ∧
    (∀ t f a, (w.intern t f a).2.registration i = some r) ∧
    (∀ t key, (w.lookup t key).2.registration i = some r) ∧
    (∀ is, (w.dropAll is).registration i = some r) ∧ ∀ t, (w.disown t).registration i = some r
  /-- A call given an instance that finds nothing in a reclaiming table. -/
  reclaiming : ∀ t f i, (w.tableAt t).storage = .reclaiming → i < w.instances.size →
    w.live? t (f.key (w.text i)) = none →
      w.StoresOnMiss t (f.key (w.text i)) i (w.intern t f (.handle i)).1
        (w.intern t f (.handle i)).2
  /-- A call given an instance that finds nothing in a retaining table stores it. -/
  retaining : ∀ t f i, (w.tableAt t).storage = .retaining → t < w.tables.size →
    i < w.instances.size → w.live? t (f.key (w.text i)) = none →
      (w.intern t f (.handle i)).1.isHit = false ∧ (w.intern t f (.handle i)).1.canonical = i ∧
        ((w.intern t f (.handle i)).2.entries t).get? (f.key (w.text i)) = some i ∧
          ∀ j, (w.intern t f (.handle i)).2.registration j = w.registration j
  /-- A call changes another table only by the last handle to an instance registered there, which it
  was given and does not keep: it found another instance, or stored a copy. -/
  elsewhere : ∀ t f a s, s ≠ t →
    (w.intern t f a).2.tableAt s = w.tableAt s ∨
      ∃ i, a = .handle i ∧ w.Reclaims (w.intern t f a).2 i s ∧
        (((w.intern t f a).1.isHit = true ∧ (w.intern t f a).1.canonical ≠ i) ∨
          ∃ x stale, (w.intern t f a).1 = .stored x stale (some i))
  /-- A look-up changes no table. -/
  lookup : ∀ t key s, (w.lookup t key).2.tableAt s = w.tableAt s
  /-- Dropping a handle changes a table only by the reclamation of that instance. -/
  drop : ∀ i s, (w.drop i).tableAt s = w.tableAt s ∨ w.Reclaims (w.drop i) i s
  /-- Dropping handles changes no table that is gone, and none that no instance is registered with.
  -/
  dropAll : ∀ is s,
    (∀ i ∈ is, ∀ r, w.registration i = some r → r.table = s → w.isOwned s = false) →
      (w.dropAll is).tableAt s = w.tableAt s

end World

/-! ## Lemmas -/

/-! ### Registrations -/

theorem Call.Provides.lt_size {w w₁ : World} {c : Call} {x : InstanceId}
    {rejected : Option InstanceId} (h : c.Provides w x rejected w₁)
    (hl : ∀ i ∈ c.argument.leftover, i < w.instances.size) : x < w₁.instances.size := by
  cases h with
  | given ha => exact hl x (by rw [ha]; rfl)
  | fresh | copy =>
    rw [World.size_create]
    exact Nat.lt_succ_self _

/-- Storing what a call provides changes no registration that is set. -/
theorem Call.Provides.registration_install {w w₁ : World} {c : Call} {x : InstanceId}
    {rejected : Option InstanceId} (h : c.Provides w x rejected w₁) {i : InstanceId}
    {r : Registration} (hr : w.registration i = some r) :
    (w₁.install c.table c.key x).registration i = some r := by
  have hr₁ : w₁.registration i = some r := (h.registration i).trans hr
  cases hs : (w₁.tableAt c.table).storage with
  | retaining =>
    simp only [World.install, hs]
    exact (World.registration_addHandle x i).trans hr₁
  | reclaiming =>
    -- What is registered now was not registered before.
    have hne : x ≠ i := by
      rintro rfl
      rw [h.tableAt] at hs
      cases (h.registration_self hs).symm.trans hr₁
    simp only [World.install, hs]
    show (w₁.register x ⟨c.table, c.key⟩).registration i = some r
    rw [World.registration, World.register, World.instanceAt_modifyInstance,
      if_neg fun hc => hne hc.1]
    exact hr₁

/-- A registration, once set, is kept by every step. -/
theorem Step.registration_effect (s : Step) {w : World} {i : InstanceId} {r : Registration}
    (hr : w.registration i = some r) : (s.effect w).world.registration i = some r := by
  cases s with
  | newTable | share | normalize | begin => exact hr
  | disown t =>
    rw [effect_disown]
    split <;> exact hr
  | value text => exact (World.registration_create text i).trans hr
  | clone j => exact (World.registration_addHandle j i).trans hr
  | release j =>
    rcases effect_release j w with ⟨q, l, -, -, -, he⟩ | ⟨-, l, he⟩
    · rw [he]
      exact (World.registration_loseHandle j i).trans hr
    · rw [he]
      exact (World.registration_loseHandle j i).trans hr
  | lookup t key =>
    obtain ⟨l, he⟩ := effect_lookup t key w
    rw [he]
    cases w.live? t key with
    | none => exact hr
    | some j => exact (World.registration_addHandle j i).trans hr
  | check c =>
    rcases effect_check c w with ⟨-, j, l, -, he⟩ | ⟨-, l, he⟩
    · rw [he]
      exact (World.registration_addHandle j i).trans hr
    · rw [he]
      exact hr
  | enter c =>
    cases hf : w.live? c.table c.key with
    | some j =>
      obtain ⟨l, he⟩ := effect_enter_of_some hf
      rw [he]
      exact (World.registration_addHandle j i).trans hr
    | none =>
      obtain ⟨x, rejected, w₁, l, hp, he⟩ := effect_enter_of_none hf
      rw [he]
      exact hp.registration_install hr
  | record c o => exact (World.registration_congr (c.instances_record o w) i).trans hr
  | detach q => exact (World.registration_congr (instances_detach w q) i).trans hr
  | settle q b => exact (World.registration_congr (q.instances_settle b w) i).trans hr

namespace World

variable {w : World} {t s : TableId} {f : Normalizer} {a : Argument} {i : InstanceId}

theorem registration_intern {r : Registration} (hr : w.registration i = some r) :
    (w.intern t f a).2.registration i = some r := by
  cases hl : w.live? t (f.key (a.value w)) with
  | some j =>
    obtain ⟨l, he⟩ := intern_of_live? hl
    rw [he, Call.registration_finish]
    exact (registration_addHandle j i).trans hr
  | none =>
    obtain ⟨x, rejected, w₁, l, hp, he⟩ := intern_of_none hl
    rw [he, Call.registration_finish]
    exact hp.registration_install hr

theorem registration_disown {r : Registration} (hr : w.registration i = some r) :
    (w.disown t).registration i = some r :=
  (registration_dropAll _ i).trans ((Step.disown t).registration_effect hr)

/-! ### Calls that find nothing -/

theorem storesOnMiss_intern (hs : (w.tableAt t).storage = .reclaiming)
    (hi : i < w.instances.size) (hl : w.live? t (f.key (w.text i)) = none) :
    w.StoresOnMiss t (f.key (w.text i)) i (w.intern t f (.handle i)).1
      (w.intern t f (.handle i)).2 := by
  obtain ⟨x, rejected, w₁, l, hp, he⟩ := intern_of_none (a := .handle i) hl
  let c := (Call.begin t f (.handle i) w).1
  have ht : t < w₁.tables.size := by
    rw [hp.tables]
    exact lt_size_of_reclaiming hs
  have hs₁ : (w₁.tableAt t).storage = .reclaiming := by rwa [hp.tableAt]
  have hx : x < w₁.instances.size := hp.lt_size fun j hj => Option.some.inj hj ▸ hi
  have hne : rejected ≠ some x := by
    cases hp with
    | given => exact nofun
    | fresh ha => cases ha
    | copy ha =>
      obtain rfl := Argument.handle.inj ha
      exact fun hc => Nat.ne_of_lt hi (Option.some.inj hc)
  rw [he]
  refine ⟨rfl, ?_, fun hn => ⟨?_, ?_⟩, ?_, ?_, ?_⟩
  · cases hp with
    | given ha hn =>
      obtain rfl := Argument.handle.inj ha
      exact ⟨fun _ => hn hs, fun _ => rfl⟩
    | fresh ha => cases ha
    | copy ha _ hr =>
      obtain rfl := Argument.handle.inj ha
      refine ⟨fun hc => absurd hc.symm (Nat.ne_of_lt hi), fun hn => ?_⟩
      rw [hn] at hr
      cases hr
  · cases hp with
    | given ha hreg =>
      obtain rfl := Argument.handle.inj ha
      exact absurd (hreg hs) hn
    | fresh ha => cases ha
    | copy => rfl
  · obtain ⟨r, hr⟩ := Option.ne_none_iff_exists'.1 hn
    rw [Call.registration_finish, hr]
    exact hp.registration_install hr
  · rw [Call.text_finish]
    exact (text_install _ _ x x).trans hp.text_self
  · refine Call.get?_finish_of_ne _ _ _ hne ?_
    exact (get?_install ht _ x t _ x).2 (.inl ⟨rfl, rfl, rfl⟩)
  · rw [Call.registration_finish]
    exact (World.registration_install _ hs₁ hx x).trans (if_pos rfl)

theorem retains_on_miss (hs : (w.tableAt t).storage = .retaining) (ht : t < w.tables.size)
    (hl : w.live? t (f.key (w.text i)) = none) :
    (w.intern t f (.handle i)).1.isHit = false ∧ (w.intern t f (.handle i)).1.canonical = i ∧
      ((w.intern t f (.handle i)).2.entries t).get? (f.key (w.text i)) = some i ∧
        ∀ j, (w.intern t f (.handle i)).2.registration j = w.registration j := by
  obtain ⟨x, rejected, w₁, l, hp, he⟩ := intern_of_none (a := .handle i) hl
  cases hp with
  | given ha =>
    obtain rfl := Argument.handle.inj ha
    rw [he]
    refine ⟨rfl, rfl, ?_, fun j => ?_⟩
    · refine Call.get?_finish_of_ne _ _ _ nofun ?_
      exact (get?_install ht _ i t _ i).2 (.inl ⟨rfl, rfl, rfl⟩)
    · rw [Call.registration_finish]
      show (w.install t _ i).registration j = _
      simp only [install, hs]
      exact registration_addHandle i j
  | fresh ha => cases ha
  | copy _ hrec => cases hs.symm.trans hrec

/-! ### Other tables -/

/-- What is dropped changes a table only by its own reclamation. -/
theorem reclaims_of_tableAfterDrop {w' : World} (hg : w'.handles i = w.handles i - 1)
    (h : w'.tableAt s = w.tableAfterDrop i s) :
    w'.tableAt s = w.tableAt s ∨ w.Reclaims w' i s := by
  rw [tableAfterDrop] at h
  split at h
  · next r hr =>
    obtain ⟨h₁, h₂, h₃⟩ := told_eq_some_iff.1 hr
    split at h
    · next hs =>
      subst hs
      exact .inr ⟨h₁, by rw [hg, h₁], h₃, r.key, h₂, h⟩
    · exact .inl h
  · exact .inl h

theorem intern_elsewhere (hs : s ≠ t) :
    (w.intern t f a).2.tableAt s = w.tableAt s ∨
      ∃ i, a = .handle i ∧ w.Reclaims (w.intern t f a).2 i s ∧
        (((w.intern t f a).1.isHit = true ∧ (w.intern t f a).1.canonical ≠ i) ∨
          ∃ x stale, (w.intern t f a).1 = .stored x stale (some i)) := by
  let c := (Call.begin t f a w).1
  cases hl : w.live? t (f.key (a.value w)) with
  | some x =>
    obtain ⟨l, he⟩ := intern_of_live? hl
    have hx := lt_size_of_isLive (isLive_of_live? hl)
    have htable := c.tableAt_finish_of_ne (.hit x) hs ((w.addHandle x).withJournal l)
    have hhandles := c.handles_finish (.hit x) ((w.addHandle x).withJournal l)
    rw [he]
    cases a with
    | text text => exact .inl htable
    | handle i =>
      have htable : (c.finish (.hit x) ((w.addHandle x).withJournal l)).tableAt s =
        ((w.addHandle x).withJournal l).tableAfterDrop i s := htable
      have hadd := handles_addHandle hx i
      by_cases hix : i = x
      · -- The call found its own argument, which has one handle more now.
        subst hix
        have hlive := isLive_iff.1 (isLive_of_live? hl)
        refine .inl (htable.trans (tableAfterDrop_of_handles_ne ?_))
        show (w.addHandle i).handles i ≠ 1
        rw [hadd, if_pos rfl]
        omega
      · rw [if_neg hix] at hadd
        have hsame : ((w.addHandle x).withJournal l).tableAfterDrop i s = w.tableAfterDrop i s :=
          tableAfterDrop_congr hadd (registration_addHandle x i) (text_addHandle x i)
            (fun _ => rfl) rfl
        have hgone := hhandles i
        have hcount : (c.discarded (.hit x)).toList.count i = 1 := List.count_singleton_self
        rw [hcount, handles_withJournal, hadd] at hgone
        rcases reclaims_of_tableAfterDrop hgone (htable.trans hsame) with h | h
        · exact .inl h
        · exact .inr ⟨i, rfl, h, .inl ⟨rfl, Ne.symm hix⟩⟩
  | none =>
    obtain ⟨x, rejected, w₁, l, hp, he⟩ := intern_of_none hl
    let o : Outcome := .stored x ((w.entries t).contains (f.key (a.value w))) rejected
    have htable := c.tableAt_finish_of_ne o hs ((w₁.install t c.key x).withJournal l)
    have hhandles := c.handles_finish o ((w₁.install t c.key x).withJournal l)
    have hother : ((w₁.install t c.key x).withJournal l).tableAt s = w.tableAt s :=
      (tableAt_install_of_ne hs c.key x).trans (hp.tableAt s)
    rw [he]
    cases hp with
    | given => exact .inl (htable.trans hother)
    | fresh => exact .inl (htable.trans hother)
    | copy ha hrec hreg =>
      rename_i i
      obtain ⟨r, hr⟩ := Option.isSome_iff_exists.1 hreg
      have hi := lt_size_of_registration hr
      have hrec' : (w.tableAt t).storage = .reclaiming := hrec
      have hh : ((w.create (w.text i)).2.install t c.key w.instances.size).handles i =
          w.handles i := by
        simp only [install, tableAt_create, hrec']
        show ((w.create (w.text i)).2.register w.instances.size ⟨t, c.key⟩).handles i = _
        rw [handles_register, handles_create, if_neg (Nat.ne_of_lt hi), Nat.add_zero]
      have hsame : (((w.create (w.text i)).2.install t c.key w.instances.size).withJournal
          l).tableAfterDrop i s = w.tableAfterDrop i s := by
        refine tableAfterDrop_congr hh ?_ ?_ (fun u => ?_) hother
        · rw [hr]
          exact Call.Provides.registration_install (.copy ha hrec hreg) hr
        · exact (text_install _ _ _ i).trans (text_create_of_lt _ hi)
        · exact owners_install _ _ _ u
      have hgone := hhandles i
      have hcount : (c.discarded o).toList.count i = 1 := List.count_singleton_self
      rw [hcount, handles_withJournal, hh] at hgone
      rcases reclaims_of_tableAfterDrop hgone (htable.trans hsame) with h | h
      · exact .inl h
      · exact .inr ⟨i, ha, h, .inr ⟨_, _, rfl⟩⟩

theorem tableAt_lookup (t : TableId) (key : String) (s : TableId) :
    (w.lookup t key).2.tableAt s = w.tableAt s := by
  obtain ⟨l, he⟩ := w.lookup_eq t key
  rw [he]
  cases w.live? t key <;> rfl

/-- In every world registrations are written once, and operations touch no other table than by the
reclamation of one instance that went. -/
theorem isolated (w : World) : w.Isolated := by
  constructor
  case registration =>
    intro i r hr
    refine ⟨fun s => s.registration_effect hr, fun t f a => registration_intern hr,
      fun t key => (Step.lookup t key).registration_effect hr, fun is => ?_,
      fun t => registration_disown hr⟩
    rw [registration_dropAll, hr]
  case reclaiming => exact fun t f i hs hi hl => storesOnMiss_intern hs hi hl
  case retaining => exact fun t f i hs ht _ hl => retains_on_miss hs ht hl
  case elsewhere => exact fun t f a s hs => intern_elsewhere hs
  case lookup => exact tableAt_lookup
  case drop =>
    intro i s
    refine reclaims_of_tableAfterDrop ?_ (tableAt_drop i s w)
    rw [handles_drop, if_pos rfl]
  case dropAll => exact fun is s h => tableAt_dropAll_of_untold h

/-- The last handle to an instance of one table goes into another one, which stores a copy: the
first table loses its entry, and nothing else about it changes. -/
theorem isolated_copy :
    ∃ w : World, w.Isolated ∧ w.registration 0 = some ⟨0, "a"⟩ ∧
      (w.intern 1 .verbatim (.handle 0)).1 = .stored 1 false (some 0) ∧
        w.Reclaims (w.intern 1 .verbatim (.handle 0)).2 0 0 := by
  let w₀ := (({} : World).newTable .reclaiming 0 false).2.intern 0 .verbatim (.text "a")
  let w := (w₀.2.newTable .reclaiming 0 false).2
  refine ⟨w, isolated w, by decide +kernel, by decide +kernel, ?_⟩
  rcases (isolated w).elsewhere 1 .verbatim (.handle 0) 0 (by decide) with h | ⟨i, hi, h, -⟩
  · have hcount := congrArg (fun x => x.counters.reclaimed) h
    exact absurd hcount (by decide +kernel)
  · obtain rfl := Argument.handle.inj hi
    exact h

end World

end Interning
