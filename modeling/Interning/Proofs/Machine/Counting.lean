import Interning.Proofs.Machine.Prompt
import Interning.Proofs.Machine.Reclamation
import Interning.Proofs.Machine.Tallies

/-!
# The counters of a reclaiming table

Whenever no call and no reclamation stands between its lock and its counting, the counters of a
reclaiming table agree with what there is: its entries, the instances whose reclamation is not done,
and the reclamations whose entry was replaced.

    installed = live entries + reclamations of t                         (Sound.installed_live)
    installed = outstanding + reclamations of t that are done          (Sound.installed_split)
    misses - reclaimed = outstanding instances
    entries = misses - stale replacements - (reclaimed - stale callbacks)
    stale replacements - stale callbacks = reclamations owed whose entry was replaced
    bytes = the keys and texts of the outstanding instances                 (counts_conserved)
-/

namespace Interning

/-! ## Algorithm -/

/-- The bytes of a registered instance: those of its key and its text. -/
def World.weight (w : World) (i : InstanceId) : Nat :=
  match w.registration i with
  | some r => r.key.utf8ByteSize + (w.text i).utf8ByteSize
  | none => 0

namespace Machine

/-- The instances ever registered with a table. -/
def installed (m : Machine) (t : TableId) : Finset InstanceId :=
  (Finset.range m.world.instances.size).filter fun i =>
    (m.world.registration i).map Registration.table = some t

/-- The instances of a table whose reclamation is not done. -/
def outstanding (m : Machine) (t : TableId) : Finset InstanceId :=
  (m.installed t).filter fun i => i ∉ m.done.map Reclamation.gone

/-- The bytes of the instances of a table whose reclamation is not done. -/
def outstandingBytes (m : Machine) (t : TableId) : Nat := ∑ i ∈ m.outstanding t, m.world.weight i

/-- The reclamations owed to a table whose entry was replaced. -/
def replaced (m : Machine) (t : TableId) : Multiset Reclamation :=
  m.owed.filter fun r => r.table = t ∧ (m.world.entries t).get? r.key ≠ some r.gone

/-- Nothing on a table stands between its lock and its counting. -/
structure Quiescent (m : Machine) (t : TableId) : Prop where
  entered : ∀ p ∈ m.entered, p.1.table ≠ t
  detached : ∀ p ∈ m.detached, p.1.table ≠ t

/-! ## Lemmas -/

variable {m m' : Machine} {s : Step} {t : TableId}

theorem mem_installed {i : InstanceId} :
    i ∈ m.installed t ↔ ∃ k, m.world.registration i = some ⟨t, k⟩ := by
  rw [installed, Finset.mem_filter, Finset.mem_range, Option.map_eq_some_iff]
  constructor
  · rintro ⟨-, ⟨u, k⟩, hr, rfl⟩
    exact ⟨k, hr⟩
  · rintro ⟨k, hr⟩
    exact ⟨World.lt_size_of_registration hr, ⟨t, k⟩, hr, rfl⟩

/-- What is due for the calls on a table are the instances installed there. -/
theorem Valid.map_gone_dues (hm : m.Valid) (hs : (m.world.tableAt t).storage = .reclaiming) :
    ((dues m.interned).filter fun r => r.table = t).map Reclamation.gone = (m.installed t).val := by
  have hle : (dues m.interned).filter (fun r => r.table = t) ≤
      (dues m.interned).filter fun r => (m.world.tableAt r.table).storage = .reclaiming :=
    Multiset.monotone_filter_right _ fun r hr => by rw [hr]; exact hs
  have hnodup := Multiset.nodup_of_le (Multiset.map_le_map hle) hm.installed.once
  refine (Multiset.Nodup.ext hnodup (m.installed t).nodup).2 fun i => ?_
  rw [Multiset.mem_map, Finset.mem_val, mem_installed]
  constructor
  · rintro ⟨r, hr, rfl⟩
    obtain ⟨hmem, rfl⟩ := Multiset.mem_filter.1 hr
    exact ⟨r.key, hm.answered.registration_of_due hmem hs⟩
  · rintro ⟨k, hr⟩
    exact ⟨⟨t, k, i⟩, Multiset.mem_filter.2 ⟨hm.installed.due i t k hr, rfl⟩, rfl⟩

theorem Sound.nodup_gone (hm : m.Sound) {rs : Multiset Reclamation} (h : rs ≤ m.reclamations) :
    (rs.map Reclamation.gone).Nodup :=
  Multiset.nodup_of_le (Multiset.map_le_map h) hm.registered.once

theorem Sound.mem_installed_of_gone (hm : m.Sound) {r : Reclamation} (hr : r ∈ m.reclamations) :
    r.gone ∈ m.installed r.table :=
  mem_installed.2 ⟨r.key, (hm.registered.gone r hr).1⟩

theorem done_le_reclamations (m : Machine) : m.done ≤ m.reclamations := by
  rw [reclamations, spent, Multiset.map_add, done, ← Multiset.map_coe]
  exact le_trans (Multiset.le_add_left _ _) (Multiset.le_add_left _ _)

/-- An instance is outstanding, or its reclamation is done. -/
theorem Sound.installed_split (hm : m.Sound) :
    (m.installed t).val = (m.outstanding t).val +
      (m.done.filter fun r => r.table = t).map Reclamation.gone := by
  have hle := le_trans (Multiset.filter_le (fun r => r.table = t) m.done) m.done_le_reclamations
  refine (Multiset.Nodup.ext (m.installed t).nodup ?_).2 fun i => ?_
  · refine Multiset.nodup_add.2 ⟨(m.outstanding t).nodup, hm.nodup_gone hle, ?_⟩
    rw [Multiset.disjoint_left]
    intro i hi hd
    obtain ⟨r, hr, rfl⟩ := Multiset.mem_map.1 hd
    have hi : r.gone ∈ m.outstanding t := hi
    refine (Finset.mem_filter.1 hi).2 (Multiset.mem_map_of_mem _ ?_)
    exact Multiset.mem_of_mem_filter hr
  · rw [Multiset.mem_add, Finset.mem_val, Finset.mem_val, outstanding, Finset.mem_filter]
    constructor
    · intro hi
      by_cases hd : i ∈ m.done.map Reclamation.gone
      · obtain ⟨r, hr, rfl⟩ := Multiset.mem_map.1 hd
        obtain ⟨k, hk⟩ := mem_installed.1 hi
        have hreg := (hm.registered.gone r (Multiset.mem_of_le m.done_le_reclamations hr)).1
        refine .inr (Multiset.mem_map_of_mem _ (Multiset.mem_filter.2 ⟨hr, ?_⟩))
        exact congrArg Registration.table (Option.some.inj (hreg.symm.trans hk))
      · exact .inl ⟨hi, hd⟩
    · rintro (⟨hi, -⟩ | hd)
      · exact hi
      · obtain ⟨r, hr, rfl⟩ := Multiset.mem_map.1 hd
        obtain ⟨hmem, rfl⟩ := Multiset.mem_filter.1 hr
        exact hm.mem_installed_of_gone (Multiset.mem_of_le m.done_le_reclamations hmem)

/-- An instance is live and stored, or it is reclaimed. -/
theorem Sound.installed_live (hm : m.Sound) (ho : m.world.isOwned t = true)
    (hs : (m.world.tableAt t).storage = .reclaiming) :
    (m.installed t).val = ↑((m.world.entries t).values.filter m.world.isLive) +
      (m.reclamations.filter fun r => r.table = t).map Reclamation.gone := by
  have hvalues : (m.world.entries t).values.Nodup := by
    refine List.Nodup.map_on ?_ (List.Nodup.of_map Prod.fst (m.world.entries t).keys_nodup)
    rintro ⟨k, i⟩ h₁ ⟨k', i'⟩ h₂ rfl
    have h₁ := hm.registered.entry t k i hs (KeyMap.get?_eq_some_iff.2 h₁)
    have h₂ := hm.registered.entry t k' i hs (KeyMap.get?_eq_some_iff.2 h₂)
    obtain ⟨-, rfl⟩ := Registration.mk.inj (Option.some.inj (h₁.symm.trans h₂))
    rfl
  refine (Multiset.Nodup.ext (m.installed t).nodup ?_).2 fun i => ?_
  · refine Multiset.nodup_add.2
      ⟨Multiset.coe_nodup.2 (hvalues.filter _), hm.nodup_gone (Multiset.filter_le _ _), ?_⟩
    rw [Multiset.disjoint_left]
    intro i hi hd
    obtain ⟨r, hr, rfl⟩ := Multiset.mem_map.1 hd
    have hl := (List.mem_filter.1 (Multiset.mem_coe.1 hi)).2
    rw [(hm.registered.gone r (Multiset.mem_of_mem_filter hr)).2] at hl
    cases hl
  · rw [Multiset.mem_add, Finset.mem_val, mem_installed, Multiset.mem_coe, List.mem_filter,
      KeyMap.mem_values_iff]
    constructor
    · rintro ⟨k, hr⟩
      cases hl : m.world.isLive i with
      | true => exact .inl ⟨⟨k, hm.registered.stored i t k hr hl⟩, rfl⟩
      | false =>
        refine .inr (Multiset.mem_map.2 ⟨⟨t, k, i⟩, Multiset.mem_filter.2 ⟨?_, rfl⟩, rfl⟩)
        exact hm.registered.reclaimed i t k ho hr hl
    · rintro (⟨⟨k, hk⟩, -⟩ | hd)
      · exact ⟨k, hm.registered.entry t k i hs hk⟩
      · obtain ⟨r, hr, rfl⟩ := Multiset.mem_map.1 hd
        obtain ⟨hmem, rfl⟩ := Multiset.mem_filter.1 hr
        exact mem_installed.1 (hm.mem_installed_of_gone hmem)

/-- In a prompt run every reclamation is done. -/
theorem Prompt.reclamations (hp : m.Prompt) : m.reclamations = m.done := by
  rw [Machine.reclamations, spent, hp.owed, hp.detached, zero_add, zero_add]
  rfl

/-- In a prompt run what is outstanding is stored. -/
theorem Prompt.outstanding_eq (hp : m.Prompt) (hm : m.Sound) (ho : m.world.isOwned t = true)
    (hs : (m.world.tableAt t).storage = .reclaiming) :
    (m.outstanding t).val = ↑(m.world.entries t).values := by
  have hlive := hm.installed_live ho hs
  rw [hm.installed_split, hp.reclamations, add_left_inj] at hlive
  have hall : (m.world.entries t).values.filter m.world.isLive = (m.world.entries t).values := by
    refine List.filter_eq_self.2 fun i hi => ?_
    obtain ⟨k, hk⟩ := KeyMap.mem_values_iff.1 hi
    refine hm.entries_live ho hs (fun r hr => ?_) hk
    rw [hp.owed] at hr
    exact absurd hr (Multiset.notMem_zero r)
  rw [hlive, hall]

/-! ### Bytes -/

theorem bytesDue_eq_weights {rs : Multiset Reclamation}
    (h : ∀ r ∈ rs, r.table = t → m.world.registration r.gone = some ⟨r.table, r.key⟩) :
    m.world.bytesDue (· = t) rs =
      (((rs.filter fun r => r.table = t).map Reclamation.gone).map m.world.weight).sum := by
  rw [World.bytesDue, Multiset.map_map]
  simp only [decide_eq_true_eq]
  refine congrArg _ (Multiset.map_congr rfl fun r hr => ?_)
  obtain ⟨hr, ht⟩ := Multiset.mem_filter.1 hr
  rw [Function.comp_apply, World.weight, h r hr ht]

/-- What is stored in a reclaiming table is outstanding or done. -/
theorem Valid.internedBytes_eq (hm : m.Valid) (hs : (m.world.tableAt t).storage = .reclaiming) :
    m.internedBytes (· = t) = m.outstandingBytes t + m.doneBytes (· = t) := by
  have hdone : ∀ r ∈ m.done, r.table = t → m.world.registration r.gone = some ⟨r.table, r.key⟩ :=
    fun r hr _ => (hm.sound.registered.gone r (Multiset.mem_of_le m.done_le_reclamations hr)).1
  have hdues : ∀ r ∈ dues m.interned, r.table = t →
      m.world.registration r.gone = some ⟨r.table, r.key⟩ := fun r hr ht =>
    hm.answered.registration_of_due hr (by rw [ht]; exact hs)
  rw [internedBytes, bytesDue_eq_weights hdues, hm.map_gone_dues hs, hm.sound.installed_split,
    Multiset.map_add, Multiset.sum_add, ← bytesDue_eq_weights hdone]
  rfl

/-- Before a table is made, nothing is stored there. -/
theorem Valid.internedBytes_of_size_le (hm : m.Valid) (ht : m.world.tables.size ≤ t) :
    m.internedBytes (· = t) = 0 := by
  refine World.bytesDue_eq_zero _ fun r hr => decide_eq_false ?_
  exact Nat.ne_of_lt (Nat.lt_of_lt_of_le (hm.answered.homes_of_due hr).1 ht)

/-- Where the bytes of the outstanding instances fit in a word, so does what is counted and not
given back. -/
theorem Valid.recordedBytes_lt (hm : m.Valid)
    (ht : m.world.tables.size ≤ t ∨ (m.world.tableAt t).storage = .reclaiming)
    (hb : m.outstandingBytes t < 2 ^ 64) :
    m.recordedBytes (· = t) < 2 ^ 64 + m.doneBytes (· = t) := by
  refine Nat.lt_of_le_of_lt (hm.bytes_le _).2 ?_
  rcases ht with ht | ht
  · rw [hm.internedBytes_of_size_le ht]
    omega
  · rw [hm.internedBytes_eq ht]
    omega

/-- As long as the bytes of the outstanding instances fit in a word, they are what is counted. -/
theorem bytes_of_run {steps : List Step} (h : run steps {} = some m)
    (hb : Throughout (fun m => m.outstandingBytes t < 2 ^ 64) steps {})
    (hs : (m.world.tableAt t).storage = .reclaiming) :
    (m.world.tableAt t).counters.bytes.toNat + m.doneBytes (· = t) = m.recordedBytes (· = t) := by
  have hp : m.Valid ∧ (m.world.tables.size ≤ t ∨ (m.world.tableAt t).storage = .reclaiming →
      (m.world.tableAt t).counters.bytes.toNat + m.doneBytes (· = t) =
        m.recordedBytes (· = t)) := by
    refine throughout_induction (P := fun m => m.outstandingBytes t < 2 ^ 64)
      (Q := fun m => m.Valid ∧ (m.world.tables.size ≤ t ∨
        (m.world.tableAt t).storage = .reclaiming →
          (m.world.tableAt t).counters.bytes.toNat + m.doneBytes (· = t) =
            m.recordedBytes (· = t))) ?_ ⟨valid_empty, fun _ => rfl⟩ hb h
    rintro s x x' ⟨hx, hxb⟩ hfit h
    have hext := hx.sound.accounted.extends_step h
    refine ⟨hx.step h, fun ht => hx.bytes_step h t (fun _ => (hx.step h).recordedBytes_lt ht hfit)
      (hxb ?_)⟩
    rcases Nat.lt_or_ge t x.world.tables.size with hlt | hge
    · refine .inr ?_
      rw [← hext.storage t hlt]
      exact ht.resolve_left (Nat.not_le.2 (Nat.lt_of_lt_of_le hlt hext.tables))
    · exact .inl hge
  exact hp.2 (.inr hs)

/-! ### Counts -/

/-- What the counters of a reclaiming table say of it. -/
structure Conserved (m : Machine) (t : TableId) : Prop where
  calls : (m.world.statsOf t).counters.calls.toNat =
    (m.world.statsOf t).counters.hits.toNat + (m.world.statsOf t).counters.misses.toNat
  outstanding : ((m.world.statsOf t).counters.misses.toNat : ℤ) -
    (m.world.statsOf t).counters.reclaimed.toNat = (m.outstanding t).card
  entries : ((m.world.statsOf t).entries.toNat : ℤ) =
    (m.world.statsOf t).counters.misses.toNat -
      (m.world.statsOf t).counters.staleReplacements.toNat -
        ((m.world.statsOf t).counters.reclaimed.toNat -
          (m.world.statsOf t).counters.staleCallbacks.toNat)
  size : (m.world.statsOf t).entries.toNat = m.world.size t
  replaced : ((m.world.statsOf t).counters.staleReplacements.toNat : ℤ) -
    (m.world.statsOf t).counters.staleCallbacks.toNat = (m.replaced t).card
  settled : (∀ r ∈ m.owed, r.table ≠ t) →
    (m.world.statsOf t).counters.staleReplacements = (m.world.statsOf t).counters.staleCallbacks
  bytes : (m.world.statsOf t).counters.bytes.toNat = m.outstandingBytes t

/-- What has a property is counted with a second one and without it. -/
theorem countP_split {α : Type} (l : List α) (q : α → Prop) [DecidablePred q] (p : α → Bool) :
    (l.countP fun x => q x ∧ true = true) =
      (l.countP fun x => q x ∧ p x = true) + l.countP fun x => q x ∧ (!p x) = true := by
  rw [List.countP_eq_countP_filter_add l _ p, List.countP_filter, List.countP_filter]
  simp

theorem callsOf_split (m : Machine) (t : TableId) :
    m.callsOf t (fun _ => true) =
      m.callsOf t Outcome.isHit + m.callsOf t fun o => !o.isHit :=
  countP_split m.recorded (fun x => x.1.table = t) fun x => x.2.isHit

theorem doneOf_split (m : Machine) (t : TableId) :
    m.doneOf t (fun _ => true) = m.doneOf t id + m.doneOf t not :=
  countP_split m.settled (fun x => x.1.table = t) Prod.snd

theorem callsOf_le (m : Machine) (t : TableId) (p : Outcome → Bool) :
    m.callsOf t p ≤ m.recorded.length := List.countP_le_length

theorem doneOf_le (m : Machine) (t : TableId) (p : Bool → Bool) :
    m.doneOf t p ≤ m.settled.length := List.countP_le_length

/-- No more reclamations are done than calls were counted. -/
theorem Valid.settled_le (hm : m.Valid) : m.settled.length ≤ m.recorded.length := by
  have h := Multiset.card_le_card hm.done_le
  rw [done, Multiset.coe_card, List.length_map] at h
  exact Nat.le_trans h (List.length_filterMap_le _ _)

/-- The misses are the calls that stored something. -/
theorem callsOf_misses (m : Machine) (t : TableId) :
    m.callsOf t (fun o => !o.isHit) =
      (dues (m.recorded : Multiset (Call × Outcome))).countP fun r => r.table = t := by
  have h : ∀ l : List (Call × Outcome), (l.countP fun x => x.1.table = t ∧ (!x.2.isHit) = true) =
      (l.filterMap fun x => x.1.due x.2).countP fun r => r.table = t := by
    intro l
    induction l with
    | nil => rfl
    | cons x l ih =>
      obtain ⟨c, o⟩ := x
      cases o with
      | hit i =>
        rw [List.countP_cons, ih, if_neg (by simp [Outcome.isHit])]
        rfl
      | stored i stale rejected =>
        have hdue : ((c, Outcome.stored i stale rejected) :: l).filterMap (fun x => x.1.due x.2) =
            ⟨c.table, c.key, i⟩ :: l.filterMap fun x => x.1.due x.2 := rfl
        rw [List.countP_cons, ih, hdue, List.countP_cons]
        simp [Outcome.isHit]
  exact h m.recorded

theorem doneOf_all (m : Machine) (t : TableId) :
    m.doneOf t (fun _ => true) = (m.done.filter fun r => r.table = t).card := by
  rw [← Multiset.countP_eq_card_filter, done, Multiset.coe_countP, List.countP_map, doneOf]
  simp [Function.comp_def]

/-- A reclamation that is owed finds its entry there, or it was replaced. -/
theorem card_owed (m : Machine) (t : TableId) :
    (m.owed.filter fun r => r.table = t).card = (m.owedEntries t).card + (m.replaced t).card := by
  have hadd := Multiset.filter_add_not
    (fun r => (m.world.entries t).get? r.key = some r.gone) (m.owed.filter fun r => r.table = t)
  rw [← hadd, Multiset.card_add, Multiset.filter_filter, Multiset.filter_filter, owedEntries,
    replaced]
  simp only [and_comm, ne_eq]

/-- Where nothing stands between its lock and its counting, nothing is due that was not counted. -/
theorem Quiescent.dues_entered (hq : m.Quiescent t) : ∀ r ∈ dues m.entered, r.table ≠ t := by
  intro r hr
  obtain ⟨⟨c, o⟩, hco, hdue⟩ := (Multiset.mem_filterMap _ _).1 hr
  have hne := hq.entered _ hco
  cases o with
  | hit => cases hdue
  | stored i stale rejected =>
    obtain rfl := Option.some.inj hdue
    exact hne

/-- The history of a table says how many instances were stored, how many entries it has, and how
many instances are gone. -/
theorem Valid.history (hm : m.Valid) (ho : m.world.isOwned t = true)
    (hs : (m.world.tableAt t).storage = .reclaiming) (hq : m.Quiescent t) :
    m.callsOf t (fun o => !o.isHit) = (m.outstanding t).card + m.doneOf t (fun _ => true) ∧
    m.world.size t + m.callsOf t Outcome.isStale + m.doneOf t id =
      m.callsOf t (fun o => !o.isHit) ∧
    m.callsOf t (fun o => !o.isHit) =
      m.world.size t + (m.replaced t).card + m.doneOf t fun _ => true := by
  have hdues : (dues m.interned).countP (fun r => r.table = t) =
      m.callsOf t fun o => !o.isHit := by
    rw [hm.installed.calls, dues_add, Multiset.countP_add, callsOf_misses, add_eq_right,
      Multiset.countP_eq_zero]
    exact hq.dues_entered
  have hstale : staleCalls t m.interned = m.callsOf t Outcome.isStale := by
    rw [hm.installed.calls, staleCalls_add, staleCalls, Multiset.countP_eq_zero.2, Nat.zero_add]
    · rfl
    · exact fun p hp hc => hq.entered p hp hc.1
  have hremovals : removals t m.spent = m.doneOf t id := by
    rw [spent, removals_add, removals, Multiset.countP_eq_zero.2, Nat.zero_add]
    · rfl
    · exact fun p hp hc => hq.detached p hp hc.1
  have hcard : (m.installed t).card = (dues m.interned).countP fun r => r.table = t := by
    have h := congrArg Multiset.card (hm.map_gone_dues hs)
    rw [Multiset.card_map, ← Multiset.countP_eq_card_filter] at h
    exact h.symm
  have hsplit : (m.installed t).card = (m.outstanding t).card + m.doneOf t fun _ => true := by
    have h := congrArg Multiset.card (hm.sound.installed_split (t := t))
    rw [Multiset.card_add, Multiset.card_map, ← doneOf_all] at h
    exact h
  have hlive : (m.installed t).card = m.world.liveSize t +
      ((m.owedEntries t).card + (m.replaced t).card + m.doneOf t fun _ => true) := by
    have h := congrArg Multiset.card (hm.sound.installed_live ho hs)
    have hspent : (m.spent.map Prod.fst).filter (fun r => r.table = t) =
        m.done.filter fun r => r.table = t := by
      rw [spent, Multiset.map_add, Multiset.filter_add, Multiset.filter_eq_nil.2, zero_add]
      · rfl
      · intro r hr ht
        obtain ⟨p, hp, rfl⟩ := Multiset.mem_map.1 hr
        exact hq.detached p hp ht
    rw [Multiset.card_add, Multiset.card_map, Multiset.coe_card, ← List.countP_eq_length_filter,
      reclamations, Multiset.filter_add, Multiset.card_add, hspent, ← doneOf_all, card_owed] at h
    exact h
  have hsize := hm.installed.size t fun h => by cases hs.symm.trans h
  have hlen := hm.sound.size_eq ho hs
  rw [hdues, hstale, hremovals] at hsize
  rw [hdues] at hcard
  omega

/-- When nothing is owed, as many calls as reclamations were stale. -/
theorem Valid.stale_eq (hm : m.Valid) (ht : m.Tallied t) (ho : m.world.isOwned t = true)
    (hs : (m.world.tableAt t).storage = .reclaiming) (hq : m.Quiescent t)
    (hn : ∀ r ∈ m.owed, r.table ≠ t) :
    (m.world.statsOf t).counters.staleReplacements =
      (m.world.statsOf t).counters.staleCallbacks := by
  have hreplaced : (m.replaced t).card = 0 := by
    rw [Multiset.card_eq_zero]
    refine Multiset.eq_zero_of_forall_notMem fun r hr => ?_
    obtain ⟨hr, ht, -⟩ := Multiset.mem_filter.1 hr
    exact hn r hr ht
  obtain ⟨h₁, h₂, h₃⟩ := hm.history ho hs hq
  have hsplit := m.doneOf_split t
  show (m.world.tableAt t).counters.staleReplacements = (m.world.tableAt t).counters.staleCallbacks
  rw [ht.staleReplacements, ht.staleCallbacks]
  exact congrArg UInt64.ofNat (by omega)

theorem toNat_ofNat {n k : Nat} (h : n ≤ k) (hk : k < 2 ^ 64) : (UInt64.ofNat n).toNat = n := by
  rw [UInt64.toNat_ofNat']
  exact Nat.mod_eq_of_lt (Nat.lt_of_le_of_lt h hk)

/-- Where fewer than 2^64 calls were counted, no counter of calls or reclamations wraps round. -/
structure Unwrapped (m : Machine) (t : TableId) : Prop where
  calls : (m.world.tableAt t).counters.calls.toNat = m.callsOf t fun _ => true
  hits : (m.world.tableAt t).counters.hits.toNat = m.callsOf t Outcome.isHit
  misses : (m.world.tableAt t).counters.misses.toNat = m.callsOf t fun o => !o.isHit
  staleReplacements :
    (m.world.tableAt t).counters.staleReplacements.toNat = m.callsOf t Outcome.isStale
  reclaimed : (m.world.tableAt t).counters.reclaimed.toNat = m.doneOf t fun _ => true
  staleCallbacks : (m.world.tableAt t).counters.staleCallbacks.toNat = m.doneOf t not

theorem Valid.unwrapped (hm : m.Valid) (ht : m.Tallied t) (hn : m.recorded.length < 2 ^ 64) :
    m.Unwrapped t := by
  have hcalls : ∀ p, (UInt64.ofNat (m.callsOf t p)).toNat = m.callsOf t p := fun p =>
    toNat_ofNat (m.callsOf_le t p) hn
  have hdone : ∀ p, (UInt64.ofNat (m.doneOf t p)).toNat = m.doneOf t p := fun p =>
    toNat_ofNat (Nat.le_trans (m.doneOf_le t p) hm.settled_le) hn
  obtain ⟨h₁, h₂, h₃, h₄, h₅, h₆⟩ := ht
  exact ⟨h₁ ▸ hcalls _, h₂ ▸ hcalls _, h₃ ▸ hcalls _, h₄ ▸ hcalls _, h₅ ▸ hdone _, h₆ ▸ hdone _⟩

/-- In every run the counters of a reclaiming table are conserved. -/
theorem conserved_of_run {steps : List Step} (h : run steps {} = some m)
    (hn : m.recorded.length < 2 ^ 64)
    (hb : Throughout (fun m => m.outstandingBytes t < 2 ^ 64) steps {})
    (ho : m.world.isOwned t = true) (hs : (m.world.tableAt t).storage = .reclaiming)
    (hq : m.Quiescent t) : m.Conserved t := by
  have hm := valid_of_run h
  obtain ⟨h₁, h₂, h₃⟩ := hm.history ho hs hq
  obtain ⟨ecalls, ehits, emisses, estale, ereclaimed, ecallbacks⟩ :=
    hm.unwrapped (tallied_of_run h t) hn
  have hsplit := m.callsOf_split t
  have hdone := m.doneOf_split t
  have hmiss := m.callsOf_le t fun o => !o.isHit
  have esize : (m.world.statsOf t).entries.toNat = m.world.size t :=
    toNat_ofNat (k := m.recorded.length) (by omega) hn
  refine ⟨?_, ?_, ?_, esize, ?_, hm.stale_eq (tallied_of_run h t) ho hs hq, ?_⟩
  · show (m.world.tableAt t).counters.calls.toNat = (m.world.tableAt t).counters.hits.toNat +
      (m.world.tableAt t).counters.misses.toNat
    omega
  · show ((m.world.tableAt t).counters.misses.toNat : ℤ) -
      (m.world.tableAt t).counters.reclaimed.toNat = _
    omega
  · rw [esize]
    show (m.world.size t : ℤ) = (m.world.tableAt t).counters.misses.toNat -
      (m.world.tableAt t).counters.staleReplacements.toNat -
        ((m.world.tableAt t).counters.reclaimed.toNat -
          (m.world.tableAt t).counters.staleCallbacks.toNat)
    omega
  · show ((m.world.tableAt t).counters.staleReplacements.toNat : ℤ) -
      (m.world.tableAt t).counters.staleCallbacks.toNat = _
    omega
  · have hbytes := bytes_of_run h hb hs
    have hint := hm.internedBytes_eq hs
    have hentered : m.world.bytesDue (· = t) (dues m.entered) = 0 :=
      World.bytesDue_eq_zero _ fun r hr => decide_eq_false (hq.dues_entered r hr)
    have hrecorded : m.internedBytes (· = t) = m.recordedBytes (· = t) := by
      rw [internedBytes, hm.installed.calls, dues_add, World.bytesDue_add, hentered, Nat.zero_add]
      rfl
    show (m.world.tableAt t).counters.bytes.toNat = m.outstandingBytes t
    omega

/-- What the counters of a reclaiming table say in a prompt run. -/
structure Punctual (m : Machine) (t : TableId) : Prop where
  staleReplacements : (m.world.statsOf t).counters.staleReplacements = 0
  staleCallbacks : (m.world.statsOf t).counters.staleCallbacks = 0
  entries : (m.world.statsOf t).entries.toNat = m.world.liveSize t
  outstanding : ((m.world.statsOf t).counters.misses.toNat : ℤ) -
    (m.world.statsOf t).counters.reclaimed.toNat = (m.world.statsOf t).entries.toNat

/-- Nothing is stale in a prompt run. -/
theorem Prompt.history (hm : m.Valid) (hp : m.Prompt) :
    m.callsOf t Outcome.isStale = 0 ∧ m.doneOf t not = 0 := by
  constructor
  · rw [callsOf, List.countP_eq_zero]
    intro p hmem hc
    have hint : p ∈ m.interned := by
      rw [← Multiset.mem_coe, hm.installed.calls]
      exact Multiset.mem_add.2 (.inr (Multiset.mem_coe.2 hmem))
    have hstale := (of_decide_eq_true hc).2
    rw [hp.fresh p hint] at hstale
    cases hstale
  · rw [doneOf, List.countP_eq_zero]
    intro p hmem hc
    have hnot := (of_decide_eq_true hc).2
    rw [hp.removed p hmem] at hnot
    cases hnot

theorem punctual_of_run {steps : List Step} (h : runPromptly steps {} = some m)
    (hn : m.recorded.length < 2 ^ 64) (ho : m.world.isOwned t = true)
    (hs : (m.world.tableAt t).storage = .reclaiming) (hq : m.Quiescent t) : m.Punctual t := by
  obtain ⟨l, hl⟩ := run_of_runPromptly h
  have hm := valid_of_run hl
  have hp := (prompt_of_run h).2
  have ht := tallied_of_run hl t
  obtain ⟨hstale, hcallbacks⟩ := hp.history hm (t := t)
  obtain ⟨h₁, h₂, h₃⟩ := hm.history ho hs hq
  have hu := hm.unwrapped ht hn
  have hmisses := hu.misses
  have hreclaimed := hu.reclaimed
  have hmiss := m.callsOf_le t fun o => !o.isHit
  have hreplaced : (m.replaced t).card = 0 := by
    rw [replaced, hp.owed]
    rfl
  have howed : (m.owedEntries t).card = 0 := by
    rw [owedEntries, hp.owed]
    rfl
  have hlive := hm.sound.size_eq ho hs
  have esize : (m.world.statsOf t).entries.toNat = m.world.size t :=
    toNat_ofNat (k := m.recorded.length) (by omega) hn
  refine ⟨?_, ?_, ?_, ?_⟩
  · show (m.world.tableAt t).counters.staleReplacements = 0
    rw [ht.staleReplacements, hstale]
    rfl
  · show (m.world.tableAt t).counters.staleCallbacks = 0
    rw [ht.staleCallbacks, hcallbacks]
    rfl
  · omega
  · show ((m.world.tableAt t).counters.misses.toNat : ℤ) -
      (m.world.tableAt t).counters.reclaimed.toNat = _
    omega

/-- The counters of a reclaiming table are conserved in every run, and in a prompt run nothing in
them is stale. -/
theorem counts_conserved (t : TableId) :
    (∀ steps m, run steps {} = some m → m.recorded.length < 2 ^ 64 →
      Throughout (fun m => m.outstandingBytes t < 2 ^ 64) steps {} →
      m.world.isOwned t = true → (m.world.tableAt t).storage = .reclaiming → m.Quiescent t →
        m.Conserved t) ∧
    ∀ steps m, runPromptly steps {} = some m → m.recorded.length < 2 ^ 64 →
      m.world.isOwned t = true → (m.world.tableAt t).storage = .reclaiming → m.Quiescent t →
        m.Punctual t :=
  ⟨fun _ _ h hn hb ho hs hq => conserved_of_run h hn hb ho hs hq,
    fun _ _ h hn ho hs hq => punctual_of_run h hn ho hs hq⟩

/-- An entry was replaced and its reclamation is owed; in the prompt run it was not there any more.
-/
theorem counts_conserved_churn :
    (∃ m, run churn {} = some m ∧ (m.replaced 0).card = 1 ∧ m.Conserved 0) ∧
      ∃ m, runPromptly (churn.take 9 ++ [.record ⟨0, "a", .text "a"⟩ (.stored 1 false none)]) {} =
        some m ∧ m.Punctual 0 := by
  constructor
  · let m := (run churn {}).get (by decide +kernel)
    have h : run churn {} = some m := (Option.some_get _).symm
    have hq : m.Quiescent 0 := ⟨by decide +kernel, by decide +kernel⟩
    refine ⟨m, h, by decide +kernel, (counts_conserved 0).1 churn m h ?_ ?_ ?_ ?_ hq⟩
    · decide +kernel
    · decide +kernel
    · decide +kernel
    · decide +kernel
  · let steps := churn.take 9 ++ [.record ⟨0, "a", .text "a"⟩ (.stored 1 false none)]
    let m := (runPromptly steps {}).get (by decide +kernel)
    have h : runPromptly steps {} = some m := (Option.some_get _).symm
    have hq : m.Quiescent 0 := ⟨by decide +kernel, by decide +kernel⟩
    refine ⟨m, h, (counts_conserved 0).2 steps m h ?_ ?_ ?_ hq⟩
    · decide +kernel
    · decide +kernel
    · decide +kernel

end Machine

end Interning
