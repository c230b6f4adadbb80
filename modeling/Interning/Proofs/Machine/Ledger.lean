import Interning.Proofs.Machine.Retention
import Interning.Proofs.Machine.Tracker
import Mathlib.Algebra.BigOperators.Group.Finset.Piecewise

/-!
# The ledger of the process

The tracker of the process is one pair of saturating words for all tracked tables, fed by calls and
by the reclamations of instances that go, nested in other operations or not.  As long as the exact
totals fit, it is the ledger of what stands: the instances stored by calls that were counted, less
those whose reclamation is done.

    done + standing = counted                                       (Valid.done_add_standing)
    what stands in a table that is owned = its entries, when it is idle   (size_of_idle)
    what stands in a tracked table = its byte counter               (bytes_of_tracked)
    what stands in a table that is gone stands for good             (Valid.standing_of_disowned)
    all of it for every run whose totals fit                        (ledger_exact)
-/

namespace Interning

/-! ## Algorithm -/

namespace Machine

/-- The instances stored by calls that were counted, less those whose reclamation is done. -/
def standing (m : Machine) : Multiset Reclamation :=
  dues (m.recorded : Multiset (Call × Outcome)) - m.done

/-- The tables that count in the tracker, those that are gone too. -/
def trackedTables (m : Machine) : Finset TableId :=
  (Finset.range m.world.tables.size).filter fun t => m.world.isTracked t = true

/-- Nothing on a table is in progress past its last lock, and no reclamation waits. -/
structure Idle (m : Machine) (t : TableId) : Prop extends Quiescent m t where
  owed : ∀ r ∈ m.owed, r.table ≠ t

/-- The tracker is the exact ledger of what was stored in tracked tables and not given back. -/
structure LedgerExact (m : Machine) : Prop where
  items : m.world.tracker.items.toNat = itemsDue m.world.isTracked m.standing
  bytes : m.world.tracker.bytes.toNat = m.world.bytesDue m.world.isTracked m.standing
  /-- No change is cut off, neither a gain nor a loss. -/
  uncut : ∀ s m', m.step s = some m' → m'.TrackerBounded →
    let d := (s.accounts m.world).getD (0, 0)
    (m'.world.tracker.items.toNat : ℤ) = m.world.tracker.items.toNat + d.1.toInt ∧
      (m'.world.tracker.bytes.toNat : ℤ) = m.world.tracker.bytes.toNat + d.2.toInt
  /-- Between operations, all that was ever stored is counted, and all that is owed is done. -/
  settled : (∀ t ∈ m.trackedTables, m.Idle t) →
    m.world.tracker.items.toNat + itemsDue m.world.isTracked m.reclamations =
        itemsDue m.world.isTracked (dues m.interned) ∧
      m.world.tracker.bytes.toNat + m.world.bytesDue m.world.isTracked m.reclamations =
        m.world.bytesDue m.world.isTracked (dues m.interned)
  /-- As long as no tracked table is gone, the tracker says what the tables say. -/
  tables : (∀ t ∈ m.trackedTables, m.Idle t ∧ m.world.isOwned t = true) →
    m.world.tracker.items.toNat = ∑ t ∈ m.trackedTables, m.world.size t ∧
      m.world.tracker.bytes.toNat =
        ∑ t ∈ m.trackedTables, (m.world.statsOf t).counters.bytes.toNat
  /-- What stands in a tracked table that is gone stays in the ledger, unchanged. -/
  gone : ∀ t ∈ m.trackedTables, m.world.isOwned t = false → ∀ more m', run more m = some m' →
    t ∈ m'.trackedTables ∧ itemsDue (· = t) m'.standing = itemsDue (· = t) m.standing ∧
      m'.world.bytesDue (· = t) m'.standing = m.world.bytesDue (· = t) m.standing

instance (m : Machine) : Decidable m.TrackerBounded :=
  decidable_of_iff (_ ∧ _ ∧ _) ⟨fun h => ⟨h.1, h.2.1, h.2.2⟩, fun h => ⟨h.items, h.bytes, h.each⟩⟩

/-- An instance is stored in two tracked tables, another one comes and goes, and then the first
table goes while its entry is still there. -/
def mixedTables : List Step :=
  let c : Call := ⟨0, "ab", .text "ab"⟩
  let d : Call := ⟨1, "ab", .handle 0⟩
  let e : Call := ⟨0, "c", .text "c"⟩
  [.newTable .reclaiming 0 true, .newTable .retaining 0 true, .begin 0 .verbatim (.text "ab"),
    .check c, .enter c, .record c (.stored 0 false none), .begin 1 .verbatim (.handle 0), .check d,
    .enter d, .record d (.stored 0 false none), .begin 0 .verbatim (.text "c"), .check e, .enter e,
    .record e (.stored 1 false none), .release 1, .detach ⟨0, "c", 1⟩, .settle ⟨0, "c", 1⟩ true,
    .disown 0]

end Machine

/-! ## Lemmas -/

/-! ### Sums over tables -/

/-- What is summed over some tables is the sum of what is summed over each of them. -/
theorem sum_tables (p : TableId → Bool) (f : Reclamation → ℕ) {n : ℕ} {rs : Multiset Reclamation}
    (h : ∀ r ∈ rs, r.table < n) :
    ((rs.filter fun r => p r.table = true).map f).sum =
      ∑ t ∈ (Finset.range n).filter fun t => p t = true,
        ((rs.filter fun r => r.table = t).map f).sum := by
  induction rs using Multiset.induction_on with
  | empty => simp
  | cons r rs ih =>
    have ih := ih fun q hq => h q (Multiset.mem_cons_of_mem hq)
    have hr := h r (Multiset.mem_cons_self r rs)
    have hone : ∀ t, (((r ::ₘ rs).filter fun r => r.table = t).map f).sum =
        ((rs.filter fun r => r.table = t).map f).sum + if r.table = t then f r else 0 := by
      intro t
      rw [Multiset.filter_cons]
      split
      · rw [Multiset.map_add, Multiset.sum_add, Nat.add_comm]
        simp
      · simp
    rw [Finset.sum_congr rfl fun t _ => hone t, Finset.sum_add_distrib, ← ih, Finset.sum_ite_eq,
      Multiset.filter_cons]
    by_cases hp : p r.table = true
    · simp [hp, hr, Nat.add_comm]
    · simp [hp]

theorem itemsDue_eq_sum (p : TableId → Bool) (rs : Multiset Reclamation) :
    itemsDue p rs = ((rs.filter fun r => p r.table = true).map fun _ => 1).sum := by
  rw [itemsDue, Multiset.countP_eq_card_filter, Multiset.map_const', Multiset.sum_replicate]
  simp

theorem itemsDue_tables (p : TableId → Bool) {n : ℕ} {rs : Multiset Reclamation}
    (h : ∀ r ∈ rs, r.table < n) :
    itemsDue p rs = ∑ t ∈ (Finset.range n).filter fun t => p t = true, itemsDue (· = t) rs := by
  rw [itemsDue_eq_sum, sum_tables p _ h]
  refine Finset.sum_congr rfl fun t _ => ?_
  rw [itemsDue_eq_sum]
  simp only [decide_eq_true_eq]

theorem World.bytesDue_tables (w : World) (p : TableId → Bool) {n : ℕ} {rs : Multiset Reclamation}
    (h : ∀ r ∈ rs, r.table < n) :
    w.bytesDue p rs = ∑ t ∈ (Finset.range n).filter fun t => p t = true, w.bytesDue (· = t) rs := by
  rw [bytesDue, sum_tables p _ h]
  refine Finset.sum_congr rfl fun t _ => ?_
  rw [bytesDue]
  simp only [decide_eq_true_eq]

namespace Machine

variable {m m' : Machine} {s : Step} {steps : List Step} {t : TableId}

/-! ### What stands -/

theorem Valid.done_add_standing (hm : m.Valid) :
    m.done + m.standing = dues (m.recorded : Multiset (Call × Outcome)) :=
  add_tsub_cancel_of_le hm.done_le

theorem Valid.itemsDue_standing (hm : m.Valid) (p : TableId → Bool) :
    itemsDue p m.done + itemsDue p m.standing =
      itemsDue p (dues (m.recorded : Multiset (Call × Outcome))) := by
  rw [← itemsDue_add, hm.done_add_standing]

theorem Valid.bytesDue_standing (hm : m.Valid) (p : TableId → Bool) :
    m.doneBytes p + m.world.bytesDue p m.standing = m.recordedBytes p := by
  rw [doneBytes, ← World.bytesDue_add, hm.done_add_standing]
  rfl

theorem Valid.mem_dues_of_standing (hm : m.Valid) {r : Reclamation} (hr : r ∈ m.standing) :
    r ∈ dues m.interned :=
  Multiset.mem_of_le (le_trans (Multiset.sub_le_self _ _) hm.dues_recorded_le) hr

/-- Nothing is counted in a table that is gone. -/
theorem Accounted.table_ne_of_disowned (hm : m.Accounted) (h : m.step s = some m')
    (ho : m.world.isOwned t = false) : ∀ r ∈ s.gain + s.loss, r.table ≠ t := by
  rintro r hr rfl
  obtain ⟨rest, hh, -, -⟩ := exists_of_step h
  have howned : m.world.isOwned r.table = true := by
    cases s with
    | record c o =>
      have hc := hm.isOwned_call (mem_of_needs hh (.entered c o) List.mem_cons_self) rfl
      cases o with
      | hit i => exact absurd hr (Multiset.notMem_zero r)
      | stored i stale rejected =>
        obtain rfl := Multiset.mem_singleton.1 hr
        exact hc
    | settle q b =>
      obtain rfl := Multiset.mem_singleton.1 hr
      exact hm.isOwned (mem_of_needs hh (.detached r b) List.mem_cons_self) List.mem_cons_self
    | _ => exact absurd hr (Multiset.notMem_zero r)
  cases howned.symm.trans ho

/-- What stands in a table that is gone stands for good. -/
theorem Valid.standing_of_disowned (hm : m.Valid) (ht : t < m.world.tables.size)
    (ho : m.world.isOwned t = false) (h : run steps m = some m') :
    m'.standing.filter (fun r => r.table = t) = m.standing.filter fun r => r.table = t := by
  have hp : m'.Valid ∧ t < m'.world.tables.size ∧ m'.world.isOwned t = false ∧
      m'.standing.filter (fun r => r.table = t) = m.standing.filter fun r => r.table = t := by
    refine run_induction (P := fun x => x.Valid ∧ t < x.world.tables.size ∧
      x.world.isOwned t = false ∧
        x.standing.filter (fun r => r.table = t) = m.standing.filter fun r => r.table = t) ?_
      ⟨hm, ht, ho, rfl⟩ h
    rintro s - x x' ⟨hx, htx, hox, hsx⟩ h
    have hext := hx.sound.accounted.extends_step h
    have hne := hx.sound.accounted.table_ne_of_disowned h hox
    have hgain : s.gain.filter (fun r => r.table = t) = 0 :=
      Multiset.filter_eq_nil.2 fun r hr => hne r (Multiset.mem_add.2 (.inl hr))
    have hloss : s.loss.filter (fun r => r.table = t) = 0 :=
      Multiset.filter_eq_nil.2 fun r hr => hne r (Multiset.mem_add.2 (.inr hr))
    refine ⟨hx.step h, Nat.lt_of_lt_of_le htx hext.tables, hext.disowned t htx hox, ?_⟩
    rw [← hsx, standing, standing, dues_recorded_step h, done_step h, Multiset.filter_sub,
      Multiset.filter_sub, Multiset.filter_add, Multiset.filter_add, hgain, hloss, zero_add,
      zero_add]
  exact hp.2.2.2

/-- What stands in a table that is owned and idle are its entries. -/
theorem size_of_idle (h : run steps {} = some m) (ho : m.world.isOwned t = true)
    (hi : m.Idle t) : m.world.size t = itemsDue (· = t) m.standing := by
  have hm := valid_of_run h
  have hstanding := hm.itemsDue_standing (· = t)
  have hmisses := m.callsOf_misses t
  have hitems : ∀ rs : Multiset Reclamation,
      itemsDue (· = t) rs = rs.countP fun r => r.table = t := fun rs => by
    rw [itemsDue]
    simp only [decide_eq_true_eq]
  rw [hitems (dues _), ← hmisses, hitems m.done, Multiset.countP_eq_card_filter, ← doneOf_all]
    at hstanding
  cases hs : (m.world.tableAt t).storage with
  | retaining =>
    have hsize := hm.misses_retaining hs ho (decided_of_run h hs ho) hi.toQuiescent
    have hdone : m.doneOf t (fun _ => true) = 0 := by
      rw [doneOf_all, Multiset.filter_eq_nil.2 (hm.sound.not_done hs), Multiset.card_zero]
    omega
  | reclaiming =>
    obtain ⟨-, -, hhistory⟩ := hm.history ho hs hi.toQuiescent
    have hreplaced : (m.replaced t).card = 0 := by
      rw [Multiset.card_eq_zero]
      refine Multiset.eq_zero_of_forall_notMem fun r hr => ?_
      obtain ⟨hr, ht, -⟩ := Multiset.mem_filter.1 hr
      exact hi.owed r hr ht
    omega

/-! ### Bytes of one tracked table -/

theorem bytesDue_le_tables (w : World) {p q : TableId → Bool} (h : ∀ u, p u = true → q u = true)
    (rs : Multiset Reclamation) : w.bytesDue p rs ≤ w.bytesDue q rs := by
  obtain ⟨rest, hrest⟩ := Multiset.le_iff_exists_add.1
    (Multiset.monotone_filter_right rs fun r hr => h r.table hr)
  rw [World.bytesDue, World.bytesDue, hrest, Multiset.map_add, Multiset.sum_add]
  exact Nat.le_add_right _ _

/-- As long as the tracker's totals fit, the byte counter of a tracked table is exact. -/
theorem bytes_of_tracked (h : run steps {} = some m) (hfit : Throughout TrackerBounded steps {})
    (ht : m.world.isTracked t = true) :
    (m.world.tableAt t).counters.bytes.toNat = m.world.bytesDue (· = t) m.standing := by
  -- Before the table is made, nothing is counted there.
  have hp : m.Valid ∧ (m.world.tables.size ≤ t ∨ m.world.isTracked t = true →
      (m.world.tableAt t).counters.bytes.toNat + m.doneBytes (· = t) =
        m.recordedBytes (· = t)) := by
    refine throughout_induction (P := TrackerBounded) (Q := fun x => x.Valid ∧
      (x.world.tables.size ≤ t ∨ x.world.isTracked t = true →
        (x.world.tableAt t).counters.bytes.toNat + x.doneBytes (· = t) =
          x.recordedBytes (· = t))) ?_ ⟨valid_empty, fun _ => rfl⟩ hfit h
    rintro s x x' ⟨hx, hxb⟩ hfit h
    have hx' := hx.step h
    have hext := hx.sound.accounted.extends_step h
    refine ⟨hx', fun ht => hx.bytes_step h t (fun _ => ?_) (hxb ?_)⟩
    · have hone := hx'.bytesDue_standing (· = t)
      rcases ht with ht | ht
      · have hz : x'.recordedBytes (· = t) = 0 := by
          refine World.bytesDue_eq_zero _ fun r hr => decide_eq_false ?_
          exact Nat.ne_of_lt (Nat.lt_of_lt_of_le
            (hx'.table_of_due r (Multiset.mem_of_le hx'.dues_recorded_le hr)) ht)
        omega
      · have hall := hx'.bytesDue_standing x'.world.isTracked
        have hbound := hfit.bytes
        have hle := bytesDue_le_tables x'.world (p := (· = t)) (q := x'.world.isTracked)
          (fun u hu => by rw [of_decide_eq_true hu]; exact ht) x'.standing
        omega
    · rcases Nat.lt_or_ge t x.world.tables.size with hlt | hge
      · refine .inr ((hx.sound.accounted.isTracked_step h hlt).symm.trans ?_)
        exact ht.resolve_left (Nat.not_le.2 (Nat.lt_of_lt_of_le hlt hext.tables))
      · exact .inl hge
  have hbytes := hp.2 (.inr ht)
  have hstanding := hp.1.bytesDue_standing (· = t)
  omega

/-! ### What a step enters -/

/-- What a step enters in the tracker is what it counts in tracked tables. -/
theorem toInt_accounts (w : World) (s : Step)
    (hw : ∀ r ∈ s.gain + s.loss, w.isTracked r.table = true →
      (World.entryBytes r.key (w.text r.gone)).toNat =
          r.key.utf8ByteSize + (w.text r.gone).utf8ByteSize ∧
        (World.entryBytes r.key (w.text r.gone)).toNat < 2 ^ 63) :
    let d := (s.accounts w).getD (0, 0)
    d.1.toInt = (itemsDue w.isTracked s.gain : ℤ) - itemsDue w.isTracked s.loss ∧
      d.2.toInt = (w.bytesDue w.isTracked s.gain : ℤ) - w.bytesDue w.isTracked s.loss := by
  have hone : (1 : Int64).toInt = 1 ∧ (-1 : Int64).toInt = -1 := by decide
  have hempty : itemsDue w.isTracked 0 = 0 ∧ w.bytesDue w.isTracked 0 = 0 := ⟨rfl, rfl⟩
  have hitems := fun r : Reclamation => itemsDue_singleton (p := w.isTracked) r
  have hbytes := fun r : Reclamation => World.bytesDue_singleton (w := w) w.isTracked r
  cases s with
  | record c o =>
    cases o with
    | hit i => exact ⟨rfl, rfl⟩
    | stored i stale rejected =>
      let r : Reclamation := ⟨c.table, c.key, i⟩
      have hgain : (Step.record c (.stored i stale rejected)).gain = ↑[r] := rfl
      have hloss : (Step.record c (.stored i stale rejected)).loss = 0 := rfl
      rw [hgain, hloss] at hw ⊢
      rw [hitems, hbytes, hempty.1, hempty.2, Step.accounts]
      by_cases ht : w.isTracked c.table = true
      · obtain ⟨hb, hlt⟩ := hw r (Multiset.mem_add.2 (.inl (Multiset.mem_singleton_self r))) ht
        have hi := toInt_toInt64 hlt
        simp only [if_pos ht, Option.getD_some, r] at hb hi ⊢
        omega
      · simp [ht, r]
  | settle r b =>
    have hgain : (Step.settle r b).gain = 0 := rfl
    have hloss : (Step.settle r b).loss = ↑[r] := rfl
    rw [hgain, hloss] at hw ⊢
    rw [hitems, hbytes, hempty.1, hempty.2, Step.accounts]
    by_cases ht : w.isTracked r.table = true
    · obtain ⟨hb, hlt⟩ := hw r (Multiset.mem_add.2 (.inr (Multiset.mem_singleton_self r))) ht
      have hi := toInt_neg_toInt64 hlt
      simp only [if_pos ht, Option.getD_some] at hb hi ⊢
      omega
    · simp [ht]
  | _ => exact ⟨rfl, rfl⟩

/-- As long as the totals fit, a step changes the tracker by what it enters there. -/
theorem Valid.tracker_uncut (hm : m.Valid) (h : m.step s = some m') (hfit : m'.TrackerBounded)
    (hx : m.TrackerExact) :
    let d := (s.accounts m.world).getD (0, 0)
    (m'.world.tracker.items.toNat : ℤ) = m.world.tracker.items.toNat + d.1.toInt ∧
      (m'.world.tracker.bytes.toNat : ℤ) = m.world.tracker.bytes.toNat + d.2.toInt := by
  have hx' := hm.tracker_step h hfit hx
  obtain ⟨hitems, hbytes⟩ := hm.exact_after hx h
  have htracked : ∀ r ∈ s.gain + s.loss, m'.world.isTracked r.table = m.world.isTracked r.table :=
    fun r hr => hm.sound.accounted.isTracked_step h (hm.table_of_due r (hm.due_of_step h hr))
  obtain ⟨hd₁, hd₂⟩ := toInt_accounts m.world s fun r hr ht =>
    hm.entryBytes_of_step h hfit hr ((htracked r hr).trans ht)
  have hgain := fun r hr => (htracked r (Multiset.mem_add.2 (.inl hr))).symm
  have hloss := fun r hr => (htracked r (Multiset.mem_add.2 (.inr hr))).symm
  rw [itemsDue_congr hgain, itemsDue_congr hloss] at hd₁
  rw [World.bytesDue_congr_tables _ hgain, World.bytesDue_congr_tables _ hloss] at hd₂
  obtain ⟨hx₁, hx₂⟩ := hx'
  rw [dues_recorded_step h, done_step h, itemsDue_add, itemsDue_add] at hx₁
  rw [hm.recordedBytes_step _ h, hm.doneBytes_step _ h] at hx₂
  exact ⟨by omega, by omega⟩

/-! ### The ledger -/

/-- Where the tracked tables are idle, all that was stored there is counted, and all that is owed
there is done. -/
theorem Valid.settled_of_idle (hm : m.Valid) (hi : ∀ t ∈ m.trackedTables, m.Idle t) :
    (dues m.interned).filter (fun r => m.world.isTracked r.table = true) =
        (dues (m.recorded : Multiset (Call × Outcome))).filter
          (fun r => m.world.isTracked r.table = true) ∧
      m.reclamations.filter (fun r => m.world.isTracked r.table = true) =
        m.done.filter fun r => m.world.isTracked r.table = true := by
  have hmem : ∀ r ∈ dues m.interned, m.world.isTracked r.table = true → m.Idle r.table :=
    fun r hr ht => hi r.table (Finset.mem_filter.2 ⟨Finset.mem_range.2 (hm.table_of_due r hr), ht⟩)
  have hreclamations : ∀ r ∈ m.reclamations, r ∈ dues m.interned := fun r hr =>
    Multiset.mem_of_le hm.dues_recorded_le (Multiset.mem_of_le hm.reclamations_le hr)
  constructor
  · rw [hm.installed.calls, dues_add, Multiset.filter_add, Multiset.filter_eq_nil.2, zero_add]
    intro r hr ht
    have hint : r ∈ dues m.interned := by
      rw [hm.installed.calls, dues_add]
      exact Multiset.mem_add.2 (.inl hr)
    exact (hmem r hint ht).toQuiescent.dues_entered r hr rfl
  · have howed : m.owed.filter (fun r => m.world.isTracked r.table = true) = 0 := by
      refine Multiset.filter_eq_nil.2 fun r hr ht => ?_
      exact (hmem r (hreclamations r (Multiset.mem_add.2 (.inl hr))) ht).owed r hr rfl
    have hdetached : (m.detached.map Prod.fst).filter
        (fun r => m.world.isTracked r.table = true) = 0 := by
      refine Multiset.filter_eq_nil.2 fun r hr ht => ?_
      obtain ⟨p, hp, rfl⟩ := Multiset.mem_map.1 hr
      have hspent : p ∈ m.spent := Multiset.mem_add.2 (.inl hp)
      have hrec : p.1 ∈ m.reclamations :=
        Multiset.mem_add.2 (.inr (Multiset.mem_map_of_mem Prod.fst hspent))
      exact (hmem p.1 (hreclamations p.1 hrec) ht).detached p hp rfl
    rw [reclamations, spent, Multiset.map_add, Multiset.filter_add, Multiset.filter_add, howed,
      hdetached, zero_add, zero_add]
    rfl

/-- In every run whose totals fit, the tracker is the exact ledger of the tracked tables. -/
theorem ledger_exact (steps : List Step) (m : Machine) (h : run steps {} = some m)
    (hfit : Throughout TrackerBounded steps {}) : m.LedgerExact := by
  have hm := valid_of_run h
  have hx := trackerExact_of_run h hfit
  have hitems := hm.itemsDue_standing m.world.isTracked
  have hbytes := hm.bytesDue_standing m.world.isTracked
  have hxi := hx.items
  have hxb := hx.bytes
  have hstanding : ∀ r ∈ m.standing, r.table < m.world.tables.size := fun r hr =>
    hm.table_of_due r (hm.mem_dues_of_standing hr)
  constructor
  case items => omega
  case bytes => omega
  case uncut => exact fun s m' hstep hfit' => hm.tracker_uncut hstep hfit' hx
  case settled =>
    intro hi
    obtain ⟨hdues, hrec⟩ := hm.settled_of_idle hi
    rw [← itemsDue_filter _ m.reclamations, ← itemsDue_filter _ (dues m.interned), hdues, hrec,
      itemsDue_filter, itemsDue_filter, ← World.bytesDue_filter _ _ m.reclamations,
      ← World.bytesDue_filter _ _ (dues m.interned), hdues, hrec, World.bytesDue_filter,
      World.bytesDue_filter]
    exact ⟨hxi, hxb⟩
  case tables =>
    intro hi
    have hsize : ∑ t ∈ m.trackedTables, m.world.size t =
        ∑ t ∈ m.trackedTables, itemsDue (· = t) m.standing :=
      Finset.sum_congr rfl fun t ht => size_of_idle h (hi t ht).2 (hi t ht).1
    have hcounters : ∑ t ∈ m.trackedTables, (m.world.statsOf t).counters.bytes.toNat =
        ∑ t ∈ m.trackedTables, m.world.bytesDue (· = t) m.standing :=
      Finset.sum_congr rfl fun t ht => bytes_of_tracked h hfit (Finset.mem_filter.1 ht).2
    have hsumItems : itemsDue m.world.isTracked m.standing =
        ∑ t ∈ m.trackedTables, itemsDue (· = t) m.standing := itemsDue_tables _ hstanding
    have hsumBytes : m.world.bytesDue m.world.isTracked m.standing =
        ∑ t ∈ m.trackedTables, m.world.bytesDue (· = t) m.standing :=
      World.bytesDue_tables _ _ hstanding
    rw [hsize, hcounters, ← hsumItems, ← hsumBytes]
    exact ⟨by omega, by omega⟩
  case gone =>
    intro t ht ho more m' hmore
    obtain ⟨hlt, htracked⟩ := Finset.mem_filter.1 ht
    have hlt := Finset.mem_range.1 hlt
    have hext := hm.sound.extends_run hmore
    have hsame := hm.standing_of_disowned hlt ho hmore
    refine ⟨?_, ?_, ?_⟩
    · exact Finset.mem_filter.2 ⟨Finset.mem_range.2 (Nat.lt_of_lt_of_le hlt hext.tables),
        (hext.tracked t hlt).trans htracked⟩
    · rw [← itemsDue_filter, ← itemsDue_filter (· = t) m.standing]
      simp only [decide_eq_true_eq]
      rw [hsame]
    · rw [← World.bytesDue_filter, ← World.bytesDue_filter m.world (· = t) m.standing]
      simp only [decide_eq_true_eq]
      rw [hsame]
      refine World.bytesDue_congr _ hext fun r hr => ?_
      exact hm.lt_size_of_due r (hm.mem_dues_of_standing (Multiset.mem_of_mem_filter hr))

/-- Before the first table goes the tracker says what both tables say; afterwards it keeps what
stood there. -/
theorem ledger_exact_mixed :
    (∃ m, run mixedTables.dropLast {} = some m ∧ m.LedgerExact ∧
      m.world.tracker.items.toNat = ∑ t ∈ m.trackedTables, m.world.size t) ∧
    ∃ m, run mixedTables {} = some m ∧ m.LedgerExact ∧ m.world.isOwned 0 = false ∧
      itemsDue (· = 0) m.standing = 1 ∧ m.world.tracker = ⟨2, 8⟩ := by
  constructor
  · let m := (run mixedTables.dropLast {}).get (by decide +kernel)
    have h : run mixedTables.dropLast {} = some m := (Option.some_get _).symm
    have hm : m.LedgerExact := ledger_exact mixedTables.dropLast m h (by decide +kernel)
    have hentered : m.entered = 0 := by decide +kernel
    have hdetached : m.detached = 0 := by decide +kernel
    have howed : m.owed = 0 := by decide +kernel
    have howned : ∀ t ∈ m.trackedTables, m.world.isOwned t = true := by decide +kernel
    refine ⟨m, h, hm, (hm.tables fun t ht => ⟨⟨⟨?_, ?_⟩, ?_⟩, howned t ht⟩).1⟩
    · simp [hentered]
    · simp [hdetached]
    · simp [howed]
  · let m := (run mixedTables {}).get (by decide +kernel)
    have h : run mixedTables {} = some m := (Option.some_get _).symm
    refine ⟨m, h, ledger_exact mixedTables m h ?_, ?_, ?_, ?_⟩
    · decide +kernel
    · decide +kernel
    · decide +kernel
    · decide +kernel

end Machine

end Interning
