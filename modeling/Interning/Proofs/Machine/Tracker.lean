import Interning.Proofs.MemoryTracker
import Interning.Proofs.Machine.Tallies

/-!
# What the tracker of the process has counted

The tracker has one account for all tracked tables.  As long as its totals fit, it holds the
instances stored by the calls that were counted, less those whose reclamation is done, and no change
is ever cut off.

    items + reclamations done = instances counted                            (TrackerExact.items)
    bytes + bytes of reclamations done = bytes of instances counted          (TrackerExact.bytes)
    every run whose totals fit is exact                                        (tracker_of_run)
-/

namespace Interning

/-! ## Algorithm -/

/-- What a step enters in the tracker. -/
def Step.accounts (s : Step) (w : World) : Option (Int64 × Int64) :=
  match s with
  | record c (.stored i _ _) =>
    if w.isTracked c.table = true then some (1, (World.entryBytes c.key (w.text i)).toInt64)
    else none
  | settle r _ =>
    if w.isTracked r.table = true then
      some (-1, -(World.entryBytes r.key (w.text r.gone)).toInt64)
    else none
  | _ => none

/-- The number of reclamations that are about some tables. -/
def itemsDue (p : TableId → Bool) (rs : Multiset Reclamation) : Nat :=
  rs.countP fun r => p r.table = true

namespace Machine

/-- What is stored in tracked tables and not given back fits in the words of the tracker.  Its
changes are signed, so each entry fits in a signed word, as all that is in memory does. -/
structure TrackerFits (m : Machine) : Prop where
  items : itemsDue m.world.isTracked (dues m.interned) <
    2 ^ 64 + itemsDue m.world.isTracked m.done
  bytes : m.internedBytes m.world.isTracked < 2 ^ 64 + m.doneBytes m.world.isTracked
  each : ∀ r ∈ dues m.interned, m.world.isTracked r.table = true →
    r.key.utf8ByteSize + (m.world.text r.gone).utf8ByteSize < 2 ^ 63

/-- What was counted in tracked tables and not given back fits in the words of the tracker. -/
structure TrackerBounded (m : Machine) : Prop where
  items : itemsDue m.world.isTracked (dues (m.recorded : Multiset (Call × Outcome))) <
    2 ^ 64 + itemsDue m.world.isTracked m.done
  bytes : m.recordedBytes m.world.isTracked < 2 ^ 64 + m.doneBytes m.world.isTracked
  each : ∀ r ∈ dues (m.recorded : Multiset (Call × Outcome)), m.world.isTracked r.table = true →
    r.key.utf8ByteSize + (m.world.text r.gone).utf8ByteSize < 2 ^ 63

/-- The tracker holds what was counted in tracked tables and is not given back. -/
structure TrackerExact (m : Machine) : Prop where
  items : m.world.tracker.items.toNat + itemsDue m.world.isTracked m.done =
    itemsDue m.world.isTracked (dues (m.recorded : Multiset (Call × Outcome)))
  bytes : m.world.tracker.bytes.toNat + m.doneBytes m.world.isTracked =
    m.recordedBytes m.world.isTracked

end Machine

/-! ## Lemmas -/

/-- A step enters in the tracker what it says. -/
theorem Step.tracker_effect (s : Step) (w : World) :
    (s.effect w).world.tracker =
      match s.accounts w with
      | some d => w.tracker.record d.1 d.2
      | none => w.tracker := by
  cases s with
  | disown t =>
    rw [effect_disown]
    split <;> rfl
  | release i =>
    rcases effect_release i w with ⟨r, j, -, -, -, he⟩ | ⟨-, j, he⟩ <;> rw [he] <;> rfl
  | lookup t key =>
    obtain ⟨j, he⟩ := effect_lookup t key w
    rw [he]
    cases w.live? t key <;> rfl
  | check c =>
    rcases effect_check c w with ⟨-, i, j, -, he⟩ | ⟨-, j, he⟩ <;> rw [he] <;> rfl
  | enter c =>
    cases hf : w.live? c.table c.key with
    | some i =>
      obtain ⟨j, he⟩ := effect_enter_of_some hf
      rw [he]
      rfl
    | none =>
      obtain ⟨x, rejected, w₁, j, hp, he⟩ := effect_enter_of_none hf
      have h₁ : w₁.tracker = w.tracker := by cases hp <;> rfl
      rw [he]
      show (w₁.install c.table c.key x).tracker = w.tracker
      rw [World.install, ← h₁]
      cases (w₁.tableAt c.table).storage <;> rfl
  | record c o =>
    cases o with
    | hit i => rfl
    | stored i stale rejected =>
      show (c.record (.stored i stale rejected) w).tracker = _
      rw [World.tracker_record, accounts]
      split <;> rfl
  | detach r =>
    by_cases h : (w.entries r.table).get? r.key = some r.gone
    · obtain ⟨j, he⟩ := effect_detach_of_own h
      rw [he]
      rfl
    · obtain ⟨j, he⟩ := effect_detach_of_other h
      rw [he]
      rfl
  | settle r removed =>
    show (r.settle removed w).tracker = _
    rw [World.tracker_settle, accounts]
    split <;> rfl
  | newTable | share | value | clone | normalize | begin => rfl

/-! ### Items and bytes of some tables -/

variable {p q : TableId → Bool}

theorem itemsDue_add (x y : Multiset Reclamation) :
    itemsDue p (x + y) = itemsDue p x + itemsDue p y := Multiset.countP_add ..

theorem itemsDue_le {x y : Multiset Reclamation} (h : x ≤ y) : itemsDue p x ≤ itemsDue p y :=
  Multiset.countP_le_of_le _ h

theorem itemsDue_eq_zero {rs : Multiset Reclamation} (h : ∀ r ∈ rs, p r.table = false) :
    itemsDue p rs = 0 :=
  Multiset.countP_eq_zero.2 fun r hr => by rw [h r hr]; exact Bool.false_ne_true

theorem itemsDue_singleton (r : Reclamation) :
    itemsDue p ↑[r] = if p r.table = true then 1 else 0 := by
  rw [itemsDue, Multiset.coe_countP, List.countP_singleton]
  simp

theorem itemsDue_congr {rs : Multiset Reclamation} (h : ∀ r ∈ rs, p r.table = q r.table) :
    itemsDue p rs = itemsDue q rs :=
  Multiset.countP_congr rfl fun r hr => by rw [h r hr]

theorem World.bytesDue_congr_tables (w : World) {rs : Multiset Reclamation}
    (h : ∀ r ∈ rs, p r.table = q r.table) : w.bytesDue p rs = w.bytesDue q rs := by
  rw [bytesDue, bytesDue, Multiset.filter_congr fun r hr => by rw [h r hr]]

theorem itemsDue_filter (p : TableId → Bool) (rs : Multiset Reclamation) :
    itemsDue p (rs.filter fun r => p r.table = true) = itemsDue p rs := by
  rw [itemsDue, itemsDue, Multiset.countP_eq_card_filter, Multiset.countP_eq_card_filter,
    Multiset.filter_filter]
  simp only [and_self]

theorem World.bytesDue_filter (w : World) (p : TableId → Bool) (rs : Multiset Reclamation) :
    w.bytesDue p (rs.filter fun r => p r.table = true) = w.bytesDue p rs := by
  rw [bytesDue, bytesDue, Multiset.filter_filter]
  simp only [and_self]

namespace Machine

variable {m m' : Machine} {s : Step}

theorem Valid.table_of_due (hm : m.Valid) : ∀ r ∈ dues m.interned,
    r.table < m.world.tables.size := fun _ hr => (hm.answered.homes_of_due hr).1

theorem Accounted.isTracked_step (hm : m.Accounted) (h : m.step s = some m') {t : TableId}
    (ht : t < m.world.tables.size) : m'.world.isTracked t = m.world.isTracked t :=
  (hm.extends_step h).tracked t ht

/-- An exact tracker is exact for the tables that are there after a step, too. -/
theorem Valid.exact_after (hm : m.Valid) (hx : m.TrackerExact) (h : m.step s = some m') :
    (m.world.tracker.items.toNat + itemsDue m'.world.isTracked m.done =
        itemsDue m'.world.isTracked (dues (m.recorded : Multiset (Call × Outcome)))) ∧
      m.world.tracker.bytes.toNat + m.doneBytes m'.world.isTracked =
        m.recordedBytes m'.world.isTracked := by
  have hdues : ∀ r ∈ dues (m.recorded : Multiset (Call × Outcome)),
      m'.world.isTracked r.table = m.world.isTracked r.table := fun r hr =>
    hm.sound.accounted.isTracked_step h
      (hm.table_of_due r (Multiset.mem_of_le hm.dues_recorded_le hr))
  have hdone : ∀ r ∈ m.done, m'.world.isTracked r.table = m.world.isTracked r.table := fun r hr =>
    hdues r (Multiset.mem_of_le hm.done_le hr)
  obtain ⟨hitems, hbytes⟩ := hx
  constructor
  · rw [itemsDue_congr hdues, itemsDue_congr hdone]
    exact hitems
  · rw [recordedBytes, doneBytes, World.bytesDue_congr_tables _ hdues,
      World.bytesDue_congr_tables _ hdone]
    exact hbytes

/-- The tracker gains what a call stored in a tracked table, loses what a reclamation gives back to
one, or stays. -/
theorem tracker_cases (h : m.step s = some m') :
    (∃ r : Reclamation, m.world.isTracked r.table = true ∧ s.gain = ↑[r] ∧ s.loss = 0 ∧
      m'.world.tracker = m.world.tracker.record 1
        (World.entryBytes r.key (m.world.text r.gone)).toInt64) ∨
    (∃ r : Reclamation, m.world.isTracked r.table = true ∧ s.gain = 0 ∧ s.loss = ↑[r] ∧
      m'.world.tracker = m.world.tracker.record (-1)
        (-(World.entryBytes r.key (m.world.text r.gone)).toInt64)) ∨
    ((∀ r ∈ s.gain + s.loss, m.world.isTracked r.table = false) ∧
      m'.world.tracker = m.world.tracker) := by
  have htracker : m'.world.tracker = match s.accounts m.world with
      | some d => m.world.tracker.record d.1 d.2
      | none => m.world.tracker := by
    obtain ⟨rest, -, -, rfl⟩ := exists_of_step h
    exact s.tracker_effect m.world
  have hnone : ∀ r ∈ (0 : Multiset Reclamation), m.world.isTracked r.table = false := fun r hr =>
    absurd hr (Multiset.notMem_zero r)
  cases s with
  | record c o =>
    cases o with
    | hit i => exact .inr (.inr ⟨hnone, htracker⟩)
    | stored i stale rejected =>
      rw [Step.accounts] at htracker
      by_cases ht : m.world.isTracked c.table = true
      · rw [if_pos ht] at htracker
        exact .inl ⟨⟨c.table, c.key, i⟩, ht, rfl, rfl, htracker⟩
      · rw [if_neg ht] at htracker
        refine .inr (.inr ⟨fun r hr => ?_, htracker⟩)
        obtain rfl := Multiset.mem_singleton.1 hr
        exact Bool.eq_false_iff.2 ht
  | settle r b =>
    rw [Step.accounts] at htracker
    by_cases ht : m.world.isTracked r.table = true
    · rw [if_pos ht] at htracker
      exact .inr (.inl ⟨r, ht, rfl, rfl, htracker⟩)
    · rw [if_neg ht] at htracker
      refine .inr (.inr ⟨fun r' hr => ?_, htracker⟩)
      obtain rfl := Multiset.mem_singleton.1 hr
      exact Bool.eq_false_iff.2 ht
  | _ => exact .inr (.inr ⟨hnone, htracker⟩)

/-- What is counted was stored, so it fits where that does. -/
theorem TrackerFits.bounded (hf : m.TrackerFits) (hm : m.Valid) : m.TrackerBounded := by
  refine ⟨Nat.lt_of_le_of_lt (itemsDue_le hm.dues_recorded_le) hf.items,
    Nat.lt_of_le_of_lt (hm.bytes_le _).2 hf.bytes, fun r hr => ?_⟩
  exact hf.each r (Multiset.mem_of_le hm.dues_recorded_le hr)

/-- What a step counts in a tracked table fits in a signed word. -/
theorem Valid.entryBytes_of_step (hm : m.Valid) (h : m.step s = some m')
    (hfit : m'.TrackerBounded) {r : Reclamation} (hr : r ∈ s.gain + s.loss)
    (ht : m'.world.isTracked r.table = true) :
    (World.entryBytes r.key (m.world.text r.gone)).toNat =
        r.key.utf8ByteSize + (m.world.text r.gone).utf8ByteSize ∧
      (World.entryBytes r.key (m.world.text r.gone)).toNat < 2 ^ 63 := by
  have hdue := hm.due_of_step h hr
  have hdue' : r ∈ dues (m'.recorded : Multiset (Call × Outcome)) := by
    rcases Multiset.mem_add.1 hr with hr | hr
    · rw [dues_recorded_step h]
      exact Multiset.mem_add.2 (.inl hr)
    · refine Multiset.mem_of_le (hm.step h).done_le ?_
      rw [done_step h]
      exact Multiset.mem_add.2 (.inl hr)
  have htext := (hm.sound.accounted.extends_step h).text r.gone (hm.lt_size_of_due r hdue)
  have hlen : r.key.utf8ByteSize + (m.world.text r.gone).utf8ByteSize < 2 ^ 63 :=
    htext ▸ hfit.each r hdue' ht
  have hb : (World.entryBytes r.key (m.world.text r.gone)).toNat =
    r.key.utf8ByteSize + (m.world.text r.gone).utf8ByteSize := entryBytes_toNat (by omega)
  exact ⟨hb, hb.symm ▸ hlen⟩

/-- As long as its totals fit, the tracker stays exact. -/
theorem Valid.tracker_step (hm : m.Valid) (h : m.step s = some m') (hfit : m'.TrackerBounded)
    (hx : m.TrackerExact) : m'.TrackerExact := by
  obtain ⟨hitems, hbytes⟩ := hm.exact_after hx h
  have hm' := hm.step h
  have hstep : ∀ r ∈ s.gain + s.loss, m'.world.isTracked r.table = m.world.isTracked r.table :=
    fun r hr => hm.sound.accounted.isTracked_step h (hm.table_of_due r (hm.due_of_step h hr))
  have hbytesOf := fun r => hm.entryBytes_of_step (r := r) h hfit
  obtain ⟨hfitItems, hfitBytes, -⟩ := hfit
  generalize hp : m'.world.isTracked = p at *
  -- Both sides of both equations grow by what the step counts.
  have hrecordedBytes := hm.recordedBytes_step p h
  have hdoneBytes := hm.doneBytes_step p h
  have hrecordedItems : itemsDue p (dues (m'.recorded : Multiset (Call × Outcome))) =
      itemsDue p s.gain + itemsDue p (dues (m.recorded : Multiset (Call × Outcome))) := by
    rw [dues_recorded_step h, itemsDue_add]
  have hdoneItems : itemsDue p m'.done = itemsDue p s.loss + itemsDue p m.done := by
    rw [done_step h, itemsDue_add]
  have hleDone := itemsDue_le (p := p) hm'.done_le
  have hleDoneBytes := (hm'.bytes_le p).1
  have hzero : itemsDue p 0 = 0 ∧ m.world.bytesDue p 0 = 0 := ⟨rfl, rfl⟩
  have hone : ∀ r : Reclamation, p r.table = true → itemsDue p ↑[r] = 1 ∧
      m.world.bytesDue p ↑[r] = r.key.utf8ByteSize + (m.world.text r.gone).utf8ByteSize :=
    fun r hr => ⟨(itemsDue_singleton r).trans (if_pos hr),
      (World.bytesDue_singleton p r).trans (if_pos hr)⟩
  rcases tracker_cases h with ⟨r, ht, hg, hl, hc⟩ | ⟨r, ht, hg, hl, hc⟩ | ⟨hn, hc⟩
  · have hr : r ∈ s.gain + s.loss := Multiset.mem_add.2 (.inl (hg ▸ Multiset.mem_singleton_self r))
    have hpr := (hstep r hr).trans ht
    obtain ⟨hb, hlt⟩ := hbytesOf r hr hpr
    obtain ⟨hi, hw⟩ := hone r hpr
    rw [hg, hi] at hrecordedItems
    rw [hg, hw] at hrecordedBytes
    rw [hl, hzero.1] at hdoneItems
    rw [hl, hzero.2] at hdoneBytes
    obtain ⟨hgi, hgb⟩ := MemoryTracker.toNat_record_gain (m := m.world.tracker) hlt (by omega)
      (by omega)
    rw [← hc] at hgi hgb
    exact ⟨by rw [hp]; omega, by rw [hp]; omega⟩
  · have hr : r ∈ s.gain + s.loss := Multiset.mem_add.2 (.inr (hl ▸ Multiset.mem_singleton_self r))
    have hpr := (hstep r hr).trans ht
    obtain ⟨hb, hlt⟩ := hbytesOf r hr hpr
    obtain ⟨hi, hw⟩ := hone r hpr
    rw [hg, hzero.1] at hrecordedItems
    rw [hg, hzero.2] at hrecordedBytes
    rw [hl, hi] at hdoneItems
    rw [hl, hw] at hdoneBytes
    obtain ⟨hgi, hgb⟩ := MemoryTracker.toNat_record_loss (m := m.world.tracker) hlt (by omega)
      (by omega)
    rw [← hc] at hgi hgb
    exact ⟨by rw [hp]; omega, by rw [hp]; omega⟩
  · have hnot : ∀ r ∈ s.gain + s.loss, p r.table = false := fun r hr =>
      (hstep r hr).trans (hn r hr)
    have hitems₀ := itemsDue_eq_zero hnot
    have hbytes₀ := World.bytesDue_eq_zero (w := m.world) p hnot
    rw [itemsDue_add] at hitems₀
    rw [World.bytesDue_add] at hbytes₀
    rw [← hc] at hitems hbytes
    exact ⟨by rw [hp]; omega, by rw [hp]; omega⟩

theorem trackerExact_empty : TrackerExact {} := ⟨rfl, rfl⟩

/-- In every run whose totals fit the tracker is exact. -/
theorem trackerExact_of_run {steps : List Step} (h : run steps {} = some m)
    (hfit : Throughout TrackerBounded steps {}) : m.TrackerExact := by
  have hp : m.Valid ∧ m.TrackerExact :=
    throughout_induction (P := TrackerBounded) (Q := fun x => x.Valid ∧ x.TrackerExact)
      (fun _ _ _ hx hf h => ⟨hx.1.step h, hx.1.tracker_step h hf hx.2⟩)
      ⟨valid_empty, trackerExact_empty⟩ hfit h
  exact hp.2

/-- So it is where all that is stored fits. -/
theorem tracker_of_run {steps : List Step} (h : run steps {} = some m)
    (hfit : Throughout TrackerFits steps {}) : m.TrackerExact := by
  have hp : m.Valid ∧ m.TrackerExact :=
    throughout_induction (P := TrackerFits) (Q := fun x => x.Valid ∧ x.TrackerExact)
      (fun _ _ _ hx hf h => ⟨hx.1.step h, hx.1.tracker_step h (hf.bounded (hx.1.step h)) hx.2⟩)
      ⟨valid_empty, trackerExact_empty⟩ hfit h
  exact hp.2

end Machine

end Interning
