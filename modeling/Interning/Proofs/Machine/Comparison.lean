import Interning.Proofs.Machine.Counting
import Interning.Proofs.Machine.Simulation
import Interning.Proofs.Machine.Tracker
import Mathlib.Algebra.Order.BigOperators.Group.Finset

/-!
# What a late reclamation changes

A run and the prompt run beside it show the same of a table that a client owns all the time: the
same answers, the same live entries, the same hits and misses.  Once no reclamation waits, they
agree on the entries, the counters and the tracker, too, except for what counts as stale: nothing in
the prompt run, and as many calls as reclamations in the other.

    what is gone in the one is reclaimed in the other                       (Simulates.mem_done)
    what is done in the one is done in the other                             (Simulates.done_le)
    and conversely, where no reclamation waits                               (Simulates.done_eq)
    late reclamations do not show                              (late_reclamation_unobservable)
-/

namespace Interning

/-! ## Algorithm -/

namespace Machine

/-- No reclamation of a table waits. -/
structure Settled (m : Machine) (t : TableId) : Prop where
  owed : ∀ r ∈ m.owed, r.table ≠ t
  detached : ∀ p ∈ m.detached, p.1.table ≠ t

/-- Every reclaiming table that counts in the tracker is owned by a client, or is still to be made.
-/
def KeepsTracked (m : Machine) : Prop :=
  ∀ t, m.world.isTracked t = true → (m.world.tableAt t).storage = .reclaiming → m.Keeps t

/-- What a table shows at every moment. -/
structure Alike (σ τ : Machine) (t : TableId) : Prop where
  live? : ∀ k, τ.world.live? t k = σ.world.live? t k
  liveSize : τ.world.liveSize t = σ.world.liveSize t
  hits : (τ.world.statsOf t).counters.hits = (σ.world.statsOf t).counters.hits
  misses : (τ.world.statsOf t).counters.misses = (σ.world.statsOf t).counters.misses
  calls : (τ.world.statsOf t).counters.calls = (σ.world.statsOf t).counters.calls
  /-- Nothing is stale in the prompt run. -/
  staleReplacements : (τ.world.statsOf t).counters.staleReplacements = 0
  staleCallbacks : (τ.world.statsOf t).counters.staleCallbacks = 0

/-- What a table shows besides when no reclamation waits. -/
structure AlikeSettled (σ τ : Machine) (t : TableId) : Prop where
  entries : τ.world.entries t = σ.world.entries t
  size : τ.world.size t = σ.world.size t
  reclaimed : (τ.world.statsOf t).counters.reclaimed = (σ.world.statsOf t).counters.reclaimed

instance (m : Machine) : Decidable m.TrackerFits :=
  decidable_of_iff (_ ∧ _ ∧ _) ⟨fun h => ⟨h.1, h.2.1, h.2.2⟩, fun h => ⟨h.items, h.bytes, h.each⟩⟩

end Machine

/-! ## Lemmas -/

theorem KeyMap.countP_values_keep {κ α : Type} (m : KeyMap κ α) (p : α → Bool) :
    (m.keep p).values.countP p = m.values.countP p := by
  show ((m.toList.filter fun e => p e.2).map Prod.snd).countP p = (m.toList.map Prod.snd).countP p
  rw [List.countP_map, List.countP_map, List.countP_filter]
  simp [Function.comp_def]

theorem due_unstale (p : Call × Outcome) :
    (unstale p).1.due (unstale p).2 = p.1.due p.2 := by
  obtain ⟨c, o⟩ := p
  cases o <;> rfl

theorem dues_unstale (l : List (Call × Outcome)) :
    dues (l.map unstale : List (Call × Outcome)) = dues (l : Multiset (Call × Outcome)) := by
  rw [dues, dues, Multiset.filterMap_coe, Multiset.filterMap_coe, List.filterMap_map]
  exact congrArg _ (List.filterMap_congr fun p _ => due_unstale p)

namespace Machine

variable {σ σ' τ : Machine} {s : Step} {t : TableId}

theorem Sound.nodup_done (hσ : σ.Sound) : σ.done.Nodup :=
  Multiset.nodup_of_le σ.done_le_reclamations (Multiset.Nodup.of_map _ hσ.registered.once)

/-- A reclaiming table that is kept is owned. -/
theorem Keeps.owner_mem_of_reclaiming (hk : σ.Keeps t)
    (hs : (σ.world.tableAt t).storage = .reclaiming) : .owner t ∈ σ.hand :=
  hk.resolve_right (Nat.not_le.2 (World.lt_size_of_reclaiming hs))

namespace Simulates

variable (h : σ.Simulates τ)

include h

theorem interned : τ.interned = σ.interned.map unstale := by
  rw [Machine.interned, Machine.interned, h.answers, List.filterMap_map, List.map_filterMap]
  refine List.filterMap_congr fun a _ => ?_
  cases a <;> rfl

theorem dues_interned : dues (τ.interned : Multiset (Call × Outcome)) = dues σ.interned := by
  rw [h.interned, dues_unstale]

theorem dues_recorded : dues (τ.recorded : Multiset (Call × Outcome)) = dues σ.recorded := by
  rw [h.recorded, dues_unstale]

theorem bytesDue_eq (p : TableId → Bool) (rs : Multiset Reclamation) :
    τ.world.bytesDue p rs = σ.world.bytesDue p rs := by
  simp only [World.bytesDue, h.swept.text]

theorem callsOf_eq {p : Outcome → Bool} (hp : ∀ o, p (Outcome.unstale o) = p o) :
    τ.callsOf t p = σ.callsOf t p := by
  rw [callsOf, callsOf, h.recorded, List.countP_map]
  refine List.countP_congr fun x _ => ?_
  simp only [Function.comp_apply, unstale, hp]

/-- What is gone in the one is reclaimed in the other. -/
theorem mem_done (hτ : τ.Sound) (hp : τ.Prompt) {r : Reclamation} (ho : .owner r.table ∈ σ.hand)
    (hr : σ.world.registration r.gone = some ⟨r.table, r.key⟩)
    (hl : σ.world.isLive r.gone = false) : r ∈ τ.done := by
  rw [← hp.reclamations]
  refine hτ.registered.reclaimed r.gone r.table r.key ?_ ?_ ?_
  · exact hτ.accounted.isOwned (h.owner_mem.2 ho) List.mem_cons_self
  · rw [h.swept.registration, hr]
  · rw [h.swept.isLive, hl]

variable {p : TableId → Prop} [DecidablePred p]

/-- What is done in the one is done in the other. -/
theorem done_le (hσ : σ.Sound) (hτ : τ.Sound) (hp : τ.Prompt)
    (hk : ∀ t, p t → (σ.world.tableAt t).storage = .reclaiming → σ.Keeps t) :
    (σ.done.filter fun r => p r.table) ≤ τ.done := by
  refine (Multiset.le_iff_subset (hσ.nodup_done.filter _)).2 fun r hr => ?_
  obtain ⟨hr, ht⟩ := Multiset.mem_filter.1 hr
  obtain ⟨hreg, hl⟩ := hσ.registered.gone r (Multiset.mem_of_le σ.done_le_reclamations hr)
  have hs := hσ.registered.reclaiming _ _ hreg
  exact h.mem_done hτ hp ((hk _ ht hs).owner_mem_of_reclaiming hs) hreg hl

/-- And conversely, where no reclamation waits. -/
theorem done_eq (hσ : σ.Sound) (hτ : τ.Sound) (hp : τ.Prompt)
    (hk : ∀ t, p t → (σ.world.tableAt t).storage = .reclaiming → σ.Keeps t)
    (hn : ∀ t, p t → σ.Settled t) :
    (τ.done.filter fun r => p r.table) = σ.done.filter fun r => p r.table := by
  refine le_antisymm ?_ (Multiset.le_filter.2 ⟨h.done_le hσ hτ hp hk, fun r hr =>
    (Multiset.mem_filter.1 hr).2⟩)
  refine (Multiset.le_iff_subset (hτ.nodup_done.filter _)).2 fun r hr => ?_
  obtain ⟨hr, ht⟩ := Multiset.mem_filter.1 hr
  obtain ⟨hreg, hl⟩ := hτ.registered.gone r (Multiset.mem_of_le τ.done_le_reclamations hr)
  rw [h.swept.registration] at hreg
  rw [h.swept.isLive] at hl
  have hs := hσ.registered.reclaiming _ _ hreg
  have hown := hσ.accounted.isOwned ((hk _ ht hs).owner_mem_of_reclaiming hs) List.mem_cons_self
  have hrec := hσ.registered.reclaimed r.gone r.table r.key hown hreg hl
  refine Multiset.mem_filter.2 ⟨?_, ht⟩
  rcases Multiset.mem_add.1 hrec with hrec | hrec
  · exact absurd rfl ((hn _ ht).owed _ hrec)
  · obtain ⟨x, hx, hxr⟩ := Multiset.mem_map.1 hrec
    obtain rfl : x.1 = r := hxr
    rcases Multiset.mem_add.1 hx with hx | hx
    · exact absurd rfl ((hn _ ht).detached _ hx)
    · exact Multiset.mem_coe.2 (List.mem_map_of_mem (Multiset.mem_coe.1 hx))

end Simulates

/-! ### Totals -/

/-- Where nothing is stored, nothing more is outstanding. -/
theorem Valid.outstandingBytes_le (hm : σ.Valid) (h : σ.step s = some σ')
    (hn : s.interns σ.world = []) (t : TableId) :
    σ'.outstandingBytes t ≤ σ.outstandingBytes t := by
  have hext := hm.sound.accounted.extends_step h
  have hreg : ∀ i r, σ'.world.registration i = some r → σ.world.registration i = some r := by
    intro i r hr
    refine (hm.sound.registration_origin h hr).resolve_right fun hc => ?_
    rw [hn] at hc
    exact absurd hc (Multiset.notMem_zero _)
  have hsub : σ'.outstanding t ⊆ σ.outstanding t := by
    intro i hi
    obtain ⟨hi, hd⟩ := Finset.mem_filter.1 hi
    obtain ⟨k, hk⟩ := mem_installed.1 hi
    refine Finset.mem_filter.2 ⟨mem_installed.2 ⟨k, hreg i _ hk⟩, fun hc => hd ?_⟩
    rw [done_step h]
    exact Multiset.mem_of_le (Multiset.map_le_map (Multiset.le_add_left _ _)) hc
  have hweight : ∀ i ∈ σ'.outstanding t, σ'.world.weight i = σ.world.weight i := by
    intro i hi
    obtain ⟨k, hk⟩ := mem_installed.1 (Finset.mem_filter.1 hi).1
    have hk' := hreg i _ hk
    rw [World.weight, World.weight, hk, hk', hext.text i (World.lt_size_of_registration hk')]
  rw [outstandingBytes, Finset.sum_congr rfl hweight]
  exact Finset.sum_le_sum_of_subset hsub

/-- Nothing more is outstanding in the prompt run. -/
theorem Simulates.outstandingBytes_le (h : σ.Simulates τ) (hσ : σ.Sound) (hτ : τ.Sound)
    (hp : τ.Prompt) (hk : σ.Keeps t) : τ.outstandingBytes t ≤ σ.outstandingBytes t := by
  have hle := h.done_le hσ hτ hp (p := (· = t)) fun u hu _ => hu ▸ hk
  have hsub : τ.outstanding t ⊆ σ.outstanding t := by
    intro i hi
    obtain ⟨hi, hd⟩ := Finset.mem_filter.1 hi
    obtain ⟨k, hreg⟩ := mem_installed.1 hi
    rw [h.swept.registration] at hreg
    refine Finset.mem_filter.2 ⟨mem_installed.2 ⟨k, hreg⟩, fun hc => hd ?_⟩
    obtain ⟨r, hr, rfl⟩ := Multiset.mem_map.1 hc
    have hr' := (hσ.registered.gone r (Multiset.mem_of_le σ.done_le_reclamations hr)).1
    have ht := congrArg Registration.table (Option.some.inj (hr'.symm.trans hreg))
    exact Multiset.mem_map_of_mem _ (Multiset.mem_of_le hle (Multiset.mem_filter.2 ⟨hr, ht⟩))
  have hweight : ∀ i ∈ τ.outstanding t, τ.world.weight i = σ.world.weight i := fun i _ => by
    rw [World.weight, World.weight, h.swept.registration, h.swept.text]
  rw [outstandingBytes, Finset.sum_congr rfl hweight]
  exact Finset.sum_le_sum_of_subset hsub

/-- Where nothing is stored, the totals of the tracker fit as before. -/
theorem TrackerFits.of_quiet (hm : σ.Valid) (h : σ.step s = some σ')
    (hn : s.interns σ.world = []) (hf : σ.TrackerFits) : σ'.TrackerFits := by
  have hext := hm.sound.accounted.extends_step h
  have hint : σ'.interned = σ.interned := by rw [interned_step h, hn, List.nil_append]
  have htracked : ∀ r ∈ dues σ.interned, σ'.world.isTracked r.table = σ.world.isTracked r.table :=
    fun r hr => hm.sound.accounted.isTracked_step h (hm.table_of_due r hr)
  have hdone : ∀ r ∈ σ.done, r ∈ dues σ.interned := fun r hr =>
    Multiset.mem_of_le hm.dues_le hr
  have hle : σ.done ≤ σ'.done := by
    rw [done_step h]
    exact Multiset.le_add_left _ _
  obtain ⟨hitems, hbytes, heach⟩ := hf
  refine ⟨?_, ?_, fun r hr ht => ?_⟩
  · have h₁ := itemsDue_le (p := σ'.world.isTracked) hle
    rw [itemsDue_congr fun r hr => htracked r (hdone r hr)] at h₁
    rw [hint, itemsDue_congr htracked]
    omega
  · have h₁ := World.bytesDue_le (w := σ'.world) σ'.world.isTracked hle
    rw [World.bytesDue_congr _ hext fun r hr => hm.lt_size_of_due r (hdone r hr),
      World.bytesDue_congr_tables _ fun r hr => htracked r (hdone r hr)] at h₁
    rw [internedBytes, hint, World.bytesDue_congr _ hext hm.lt_size_of_due,
      World.bytesDue_congr_tables _ htracked]
    have hbytes : σ.world.bytesDue σ.world.isTracked (dues σ.interned) <
      2 ^ 64 + σ.world.bytesDue σ.world.isTracked σ.done := hbytes
    unfold doneBytes
    omega
  · rw [hint] at hr
    rw [htracked r hr] at ht
    rw [hext.text r.gone (hm.lt_size_of_due r hr)]
    exact heach r hr ht

/-- The totals of the tracker fit in the prompt run, too. -/
theorem Simulates.trackerFits (h : σ.Simulates τ) (hσ : σ.Sound) (hτ : τ.Sound) (hp : τ.Prompt)
    (hk : σ.KeepsTracked) (hf : σ.TrackerFits) : τ.TrackerFits := by
  have htracked : τ.world.isTracked = σ.world.isTracked := funext h.swept.tracked
  have hle := h.done_le hσ hτ hp (p := fun t => σ.world.isTracked t = true) hk
  obtain ⟨hitems, hbytes, heach⟩ := hf
  refine ⟨?_, ?_, fun r hr ht => ?_⟩
  · have h₁ := itemsDue_le (p := σ.world.isTracked) hle
    rw [itemsDue_filter] at h₁
    rw [htracked, h.dues_interned]
    omega
  · have h₁ := World.bytesDue_le (w := σ.world) σ.world.isTracked hle
    rw [World.bytesDue_filter] at h₁
    rw [htracked, internedBytes, doneBytes, h.bytesDue_eq, h.bytesDue_eq, h.dues_interned]
    have hbytes : σ.world.bytesDue σ.world.isTracked (dues σ.interned) <
      2 ^ 64 + σ.world.bytesDue σ.world.isTracked σ.done := hbytes
    omega
  · rw [h.dues_interned] at hr
    rw [htracked] at ht
    rw [h.swept.text]
    exact heach r hr ht

/-! ### From the end of a run back -/

/-- What a step does not bring about held throughout, when it holds at the end. -/
theorem throughout_of_end {P : Machine → Prop}
    (hP : ∀ s m m', m.Sound → m.step s = some m' → P m' → P m) {m m' : Machine}
    {steps : List Step} (hm : m.Sound) (h : run steps m = some m') (hm' : P m') :
    Throughout P steps m := by
  induction steps generalizing m with
  | nil =>
    obtain rfl := Option.some.inj h
    exact hm'
  | cons s rest ih =>
    obtain ⟨m₁, h₁, h⟩ := Option.bind_eq_some_iff.1 h
    have hrest := ih (hm.step h₁) h
    refine ⟨hP s m m₁ hm h₁ hrest.head, fun m₂ h₂ => ?_⟩
    obtain rfl := Option.some.inj (h₁.symm.trans h₂)
    exact hrest

theorem KeepsTracked.of_step (hm : σ.Sound) (h : σ.step s = some σ') (hk : σ'.KeepsTracked) :
    σ.KeepsTracked := by
  intro t ht hs
  have hlt := World.lt_size_of_reclaiming hs
  have hext := hm.accounted.extends_step h
  refine Keeps.of_step hm.accounted h (hk t ?_ ?_)
  · exact (hext.tracked t hlt).trans ht
  · exact (hext.storage t hlt).trans hs

/-! ### Comparing tables -/

/-- What a table shows at every moment is the same. -/
theorem Simulates.alike (h : σ.Simulates τ) (hσt : σ.Tallied t) (hτ : τ.Valid) (hτt : τ.Tallied t)
    (hp : τ.Prompt) (ho : σ.Keeps t) : σ.Alike τ t := by
  obtain ⟨hstale, hcallbacks⟩ := hp.history hτ (t := t)
  have hcalls : ∀ p : Outcome → Bool, (∀ o, p (Outcome.unstale o) = p o) →
      τ.callsOf t p = σ.callsOf t p := fun p hp => h.callsOf_eq hp
  refine ⟨h.swept.live? ho, ?_, ?_, ?_, ?_, ?_, ?_⟩
  · rw [World.liveSize, h.swept.entries t ho, h.swept.isLive, KeyMap.countP_values_keep]
    rfl
  · show (τ.world.tableAt t).counters.hits = (σ.world.tableAt t).counters.hits
    rw [hτt.hits, hσt.hits, hcalls _ Outcome.isHit_unstale]
  · show (τ.world.tableAt t).counters.misses = (σ.world.tableAt t).counters.misses
    rw [hτt.misses, hσt.misses, hcalls _ fun o => by rw [o.isHit_unstale]]
  · show (τ.world.tableAt t).counters.calls = (σ.world.tableAt t).counters.calls
    rw [hτt.calls, hσt.calls, hcalls _ fun _ => rfl]
  · show (τ.world.tableAt t).counters.staleReplacements = 0
    rw [hτt.staleReplacements, hstale]
    rfl
  · show (τ.world.tableAt t).counters.staleCallbacks = 0
    rw [hτt.staleCallbacks, hcallbacks]
    rfl

/-- Where no reclamation waits, the entries and the reclamations done are the same, too. -/
theorem Simulates.alikeSettled (h : σ.Simulates τ) (hσ : σ.Sound) (hσt : σ.Tallied t)
    (hτ : τ.Sound) (hτt : τ.Tallied t) (hp : τ.Prompt) (ho : .owner t ∈ σ.hand)
    (hs : (σ.world.tableAt t).storage = .reclaiming) (hn : σ.Settled t) : σ.AlikeSettled τ t := by
  have hown := hσ.accounted.isOwned ho List.mem_cons_self
  have hentries : τ.world.entries t = σ.world.entries t := by
    rw [h.swept.entries t (.inl ho)]
    exact KeyMap.keep_eq_self fun k i hk => hσ.entries_live hown hs hn.owed hk
  have hdone := h.done_eq hσ hτ hp (p := (· = t)) (fun u hu _ => .inl (hu ▸ ho)) fun u hu => hu ▸ hn
  refine ⟨hentries, ?_, ?_⟩
  · rw [World.size, hentries]
    rfl
  · show (τ.world.tableAt t).counters.reclaimed = (σ.world.tableAt t).counters.reclaimed
    rw [hτt.reclaimed, hσt.reclaimed, doneOf_all, doneOf_all, hdone]

/-! ### Late reclamations -/

/-- The bytes of a table agree where no reclamation waits, as long as they fit. -/
theorem Simulates.bytes_eq {steps : List Step} (h : σ.Simulates τ) (hrun : run steps {} = some σ)
    (hτrun : runPromptly (steps.filterMap Step.undelayed?) {} = some τ) (ho : .owner t ∈ σ.hand)
    (hs : (σ.world.tableAt t).storage = .reclaiming) (hn : σ.Settled t)
    (hb : Throughout (fun m => m.outstandingBytes t < 2 ^ 64) steps {}) :
    (τ.world.statsOf t).counters.bytes = (σ.world.statsOf t).counters.bytes := by
  have hσ := sound_of_run hrun
  obtain ⟨hτ, hp⟩ := prompt_of_run hτrun
  have hkeeps : Throughout (Keeps · t) steps {} :=
    throughout_of_end (fun _ _ _ hm h => Keeps.of_step hm.accounted h) sound_empty hrun (.inl ho)
  obtain ⟨τ', l, hτ', hl, hbτ, -⟩ := simulates_empty.of_run
    (G := fun m => m.Keeps t ∧ m.outstandingBytes t < 2 ^ 64)
    (F := fun m => m.outstandingBytes t < 2 ^ 64)
    (fun _ _ _ hm h hq hb => Nat.lt_of_le_of_lt (hm.outstandingBytes_le h hq t) hb)
    (fun _ _ hσ hτ hp h hG =>
      Nat.lt_of_le_of_lt (h.outstandingBytes_le hσ.sound hτ.sound hp hG.1) hG.2)
    valid_empty valid_empty prompt_empty hrun (hkeeps.and hb)
  obtain rfl := Option.some.inj (hτrun.symm.trans hτ')
  have hdone : τ.doneBytes (· = t) = σ.doneBytes (· = t) := by
    have hdone := h.done_eq hσ hτ hp (p := (· = t)) (fun u hu _ => .inl (hu ▸ ho))
      fun u hu => hu ▸ hn
    have hfilter := fun (w : World) (rs : Multiset Reclamation) =>
      w.bytesDue_filter (fun u => decide (u = t)) rs
    simp only [decide_eq_true_eq] at hfilter
    rw [doneBytes, doneBytes, h.bytesDue_eq, ← hfilter, hdone, hfilter]
  have hrecorded : τ.recordedBytes (· = t) = σ.recordedBytes (· = t) := by
    rw [recordedBytes, recordedBytes, h.bytesDue_eq, h.dues_recorded]
  have hbytes := bytes_of_run hrun hb hs
  have hbytes' := bytes_of_run hl hbτ ((h.swept.storage t).trans hs)
  refine UInt64.toNat_inj.1 ?_
  show (τ.world.tableAt t).counters.bytes.toNat = (σ.world.tableAt t).counters.bytes.toNat
  omega

/-- The tracker agrees where no reclamation waits at all, as long as its totals fit. -/
theorem Simulates.tracker_eq {steps : List Step} (h : σ.Simulates τ) (hrun : run steps {} = some σ)
    (hτrun : runPromptly (steps.filterMap Step.undelayed?) {} = some τ) (hk : σ.KeepsTracked)
    (hn : ∀ t, σ.Settled t) (hfit : Throughout TrackerFits steps {}) :
    τ.world.tracker = σ.world.tracker := by
  have hσ := sound_of_run hrun
  obtain ⟨hτ, hp⟩ := prompt_of_run hτrun
  have hkeeps : Throughout KeepsTracked steps {} :=
    throughout_of_end (fun _ _ _ hm h => KeepsTracked.of_step hm h) sound_empty hrun hk
  obtain ⟨τ', l, hτ', hl, hfitτ, -⟩ := simulates_empty.of_run
    (G := fun m => m.KeepsTracked ∧ m.TrackerFits) (F := TrackerFits)
    (fun _ _ _ hm h hq hf => hf.of_quiet hm h hq)
    (fun _ _ hσ hτ hp h hG => h.trackerFits hσ.sound hτ.sound hp hG.1 hG.2)
    valid_empty valid_empty prompt_empty hrun (hkeeps.and hfit)
  obtain rfl := Option.some.inj (hτrun.symm.trans hτ')
  have htracked : τ.world.isTracked = σ.world.isTracked := funext h.swept.tracked
  have hdone := h.done_eq hσ hτ hp (p := fun t => σ.world.isTracked t = true) hk fun t _ => hn t
  obtain ⟨hitems, hbytes⟩ := tracker_of_run hrun hfit
  obtain ⟨hitems', hbytes'⟩ := tracker_of_run hl hfitτ
  rw [htracked, h.dues_recorded, ← itemsDue_filter, hdone, itemsDue_filter] at hitems'
  rw [htracked, doneBytes, recordedBytes, h.bytesDue_eq, h.bytesDue_eq, h.dues_recorded,
    ← World.bytesDue_filter, hdone, World.bytesDue_filter] at hbytes'
  have hi : τ.world.tracker.items = σ.world.tracker.items := UInt64.toNat_inj.1 (by omega)
  have hb : τ.world.tracker.bytes = σ.world.tracker.bytes := by
    refine UInt64.toNat_inj.1 ?_
    have hbytes : _ + σ.world.bytesDue σ.world.isTracked σ.done =
      σ.world.bytesDue σ.world.isTracked (dues σ.recorded) := hbytes
    omega
  have hmk : ∀ x y : MemoryTracker, x.items = y.items → x.bytes = y.bytes → x = y := by
    rintro ⟨a, b⟩ ⟨c, d⟩ rfl rfl
    rfl
  exact hmk _ _ hi hb

/-- Take any run, and the prompt run of the same steps.  Of a reclaiming table that a client still
owns at its end, they show the same answers, live entries, hits and misses, and this at every
moment, since every part of a run from its beginning is a run.  Once no reclamation waits, they
agree on the entries, the reclamations and the bytes, too, and what is stale in the first run comes
in pairs.  The tracker counts for all tables: it agrees once no reclamation waits at all. -/
theorem late_reclamation_unobservable {steps : List Step} (h : run steps {} = some σ)
    (ho : .owner t ∈ σ.hand) (hs : (σ.world.tableAt t).storage = .reclaiming) :
    ∃ τ, runPromptly (steps.filterMap Step.undelayed?) {} = some τ ∧
      τ.answers = σ.answers.map Answer.unstale ∧
      τ.world.instances = σ.world.instances ∧
      σ.Alike τ t ∧
      (σ.Settled t →
        σ.AlikeSettled τ t ∧
        (Throughout (fun m => m.outstandingBytes t < 2 ^ 64) steps {} →
          (τ.world.statsOf t).counters.bytes = (σ.world.statsOf t).counters.bytes) ∧
        ((∀ p ∈ σ.entered, p.1.table ≠ t) →
          (σ.world.statsOf t).counters.staleReplacements =
            (σ.world.statsOf t).counters.staleCallbacks)) ∧
      ((∀ u, σ.Settled u) → σ.KeepsTracked → Throughout TrackerFits steps {} →
        τ.world.tracker = σ.world.tracker) := by
  obtain ⟨τ, hτrun, hsim⟩ := simulates_of_run h
  obtain ⟨hτ, hp⟩ := prompt_of_run hτrun
  obtain ⟨l, hl⟩ := run_of_runPromptly hτrun
  have hσ := valid_of_run h
  have hσt := tallied_of_run h t
  have hτt := tallied_of_run hl t
  have hown := hσ.sound.accounted.isOwned ho List.mem_cons_self
  refine ⟨τ, hτrun, hsim.answers, hsim.swept.instances,
    hsim.alike hσt (valid_of_run hl) hτt hp (.inl ho), fun hn => ⟨?_, ?_, ?_⟩, ?_⟩
  · exact hsim.alikeSettled hσ.sound hσt hτ hτt hp ho hs hn
  · exact hsim.bytes_eq h hτrun ho hs hn
  · exact fun he => hσ.stale_eq hσt hown hs ⟨he, hn.detached⟩ hn.owed
  · exact fun hn hk hfit => hsim.tracker_eq h hτrun hk hn hfit

/-- The reclamation of an instance whose entry was replaced comes at last. -/
theorem late_reclamation_unobservable_churn :
    let steps := churn ++ [.detach ⟨0, "a", 0⟩, .settle ⟨0, "a", 0⟩ false]
    ∃ σ τ, run steps {} = some σ ∧
      runPromptly (steps.filterMap Step.undelayed?) {} = some τ ∧
      σ.Alike τ 0 ∧ σ.AlikeSettled τ 0 ∧
      (τ.world.statsOf 0).counters.bytes = (σ.world.statsOf 0).counters.bytes ∧
      (σ.world.statsOf 0).counters.staleReplacements = 1 ∧
      (σ.world.statsOf 0).counters.staleReplacements =
        (σ.world.statsOf 0).counters.staleCallbacks ∧
      τ.world.tracker = σ.world.tracker := by
  intro steps
  let σ := (run steps {}).get (by decide +kernel)
  have h : run steps {} = some σ := (Option.some_get _).symm
  obtain ⟨τ, hτ, -, -, halike, hsettled, htracker⟩ :=
    late_reclamation_unobservable (t := 0) h (by decide +kernel) (by decide +kernel)
  have howed : σ.owed = 0 := by decide +kernel
  have hdetached : σ.detached = 0 := by decide +kernel
  have hsize : σ.world.tables.size = 1 := by decide +kernel
  have hn : ∀ u, σ.Settled u := fun u => ⟨howed ▸ nofun, hdetached ▸ nofun⟩
  have hk : σ.KeepsTracked := by
    intro u hu hs
    have hlt := World.lt_size_of_reclaiming hs
    rw [hsize] at hlt
    obtain rfl := Nat.lt_one_iff.1 hlt
    exact .inl (by decide +kernel)
  obtain ⟨h₁, h₂, h₃⟩ := hsettled (hn 0)
  exact ⟨σ, τ, h, hτ, halike, h₁, h₂ (by decide +kernel), by decide +kernel,
    h₃ (by decide +kernel), htracker hn hk (by decide +kernel)⟩

end Machine

end Interning
