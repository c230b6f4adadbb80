import Interning.Proofs.Machine.Installed

/-!
# What the counters of a table have counted

The counters of a table are those of its history: of the calls counted and the reclamations done.
The byte counter is that history, too, as long as it fits, since no reclamation is counted before
the call that it is due for.

    counters.hits = the calls on t counted as hits, and so on               (tallied_of_run)
    bytes counted = bytes before + gain, or bytes before - loss             (Sound.bytes_cases)
    counters.bytes + bytes of reclamations done = bytes of calls counted    (Valid.bytes_step)
-/

namespace Interning

/-! ## Algorithm -/

/-- What a step counts in a table. -/
def Step.tally (s : Step) (w : World) (t : TableId) : Option Counters.Entry :=
  match s with
  | record c o => if c.table = t then some (c.counted o w) else none
  | settle r removed =>
    if r.table = t then some (.reclaim removed (World.entryBytes r.key (w.text r.gone))) else none
  | _ => none

/-- What a step counts as stored. -/
def Step.gain (s : Step) : Multiset Reclamation :=
  dues (s.recorded.toList : Multiset (Call × Outcome))

/-- What a step counts as given back. -/
def Step.loss (s : Step) : Multiset Reclamation := (s.settled.map Prod.fst).toList

/-- The bytes of the keys and texts that reclamations of some tables are about. -/
def World.bytesDue (w : World) (p : TableId → Bool) (rs : Multiset Reclamation) : Nat :=
  ((rs.filter fun r => p r.table = true).map fun r =>
    r.key.utf8ByteSize + (w.text r.gone).utf8ByteSize).sum

namespace Machine

/-- The reclamations that are done. -/
def done (m : Machine) : Multiset Reclamation := (m.settled.map Prod.fst : List Reclamation)

/-- The number of calls that were counted and have a property. -/
def callsOf (m : Machine) (t : TableId) (p : Outcome → Bool) : Nat :=
  m.recorded.countP fun x => x.1.table = t ∧ p x.2 = true

/-- The number of reclamations that are done and have a property. -/
def doneOf (m : Machine) (t : TableId) (p : Bool → Bool) : Nat :=
  m.settled.countP fun x => x.1.table = t ∧ p x.2 = true

/-- The counters of a table are those of its history. -/
structure Tallied (m : Machine) (t : TableId) : Prop where
  calls : (m.world.tableAt t).counters.calls = .ofNat (m.callsOf t fun _ => true)
  hits : (m.world.tableAt t).counters.hits = .ofNat (m.callsOf t Outcome.isHit)
  misses : (m.world.tableAt t).counters.misses = .ofNat (m.callsOf t fun o => !o.isHit)
  staleReplacements :
    (m.world.tableAt t).counters.staleReplacements = .ofNat (m.callsOf t Outcome.isStale)
  reclaimed : (m.world.tableAt t).counters.reclaimed = .ofNat (m.doneOf t fun _ => true)
  staleCallbacks : (m.world.tableAt t).counters.staleCallbacks = .ofNat (m.doneOf t not)

end Machine

/-! ## Lemmas -/

/-! ### Counters -/

namespace World

variable {w : World}

theorem counters_addOwner (t u : TableId) :
    ((w.addOwner t).tableAt u).counters = (w.tableAt u).counters :=
  field_modifyTable Table.counters (fun _ => by rfl) t u

theorem counters_removeOwner (t u : TableId) :
    ((w.removeOwner t).tableAt u).counters = (w.tableAt u).counters :=
  field_modifyTable Table.counters (fun _ => by rfl) t u

theorem counters_modifyEntries (t : TableId)
    (f : KeyMap String InstanceId → KeyMap String InstanceId) (u : TableId) :
    ((w.modifyEntries t f).tableAt u).counters = (w.tableAt u).counters :=
  field_modifyTable Table.counters (fun _ => by rfl) t u

theorem counters_count {t : TableId} (ht : t < w.tables.size) (e : Counters.Entry) (u : TableId) :
    ((w.count t e).tableAt u).counters =
      if t = u then (w.tableAt u).counters.record e else (w.tableAt u).counters := by
  rw [count, tableAt_modifyTable]
  by_cases h : t = u
  · subst h
    rw [if_pos ⟨rfl, ht⟩, if_pos rfl]
  · rw [if_neg fun hc => h hc.1, if_neg h]

end World

/-- What is not counted leaves the counters as they are. -/
theorem Step.counters_effect {s : Step} {w : World} {t : TableId} (hr : ∀ c o, s ≠ .record c o)
    (hs : ∀ r b, s ≠ .settle r b) :
    ((s.effect w).world.tableAt t).counters = (w.tableAt t).counters := by
  cases s with
  | newTable k capacity tracked => exact World.field_newTable Table.counters rfl capacity t
  | share u => exact World.counters_addOwner u t
  | disown u =>
    rw [effect_disown]
    split
    · rw [World.counters_modifyEntries, World.counters_removeOwner]
    · exact World.counters_removeOwner u t
  | release i =>
    rcases effect_release i w with ⟨r, j, -, -, -, he⟩ | ⟨-, j, he⟩
    · rw [he, World.tableAt_withJournal, World.counters_addOwner]
      rfl
    · rw [he]
      rfl
  | lookup u key =>
    obtain ⟨j, he⟩ := effect_lookup u key w
    rw [he]
    cases w.live? u key <;> rfl
  | check c =>
    rcases effect_check c w with ⟨-, i, j, -, he⟩ | ⟨-, j, he⟩ <;> rw [he] <;> rfl
  | enter c =>
    cases hf : w.live? c.table c.key with
    | some i =>
      obtain ⟨j, he⟩ := effect_enter_of_some hf
      rw [he]
      rfl
    | none =>
      obtain ⟨x, rejected, w₁, j, hp, he⟩ := effect_enter_of_none hf
      rw [he]
      show ((w₁.install c.table c.key x).tableAt t).counters = _
      rw [World.install, World.counters_modifyEntries, ← hp.tableAt]
      cases (w₁.tableAt c.table).storage <;> rfl
  | detach r =>
    obtain ⟨e, he⟩ := tableAt_detach w r t
    rw [he]
  | record c o => exact absurd rfl (hr c o)
  | settle r b => exact absurd rfl (hs r b)
  | value | clone | normalize | begin => rfl

namespace Machine

variable {m m' : Machine} {s : Step} {t : TableId}

/-- A step counts in a table what it says. -/
theorem Sound.counters_step (hm : m.Sound) (h : m.step s = some m') (t : TableId) :
    (m'.world.tableAt t).counters =
      match s.tally m.world t with
      | some e => (m.world.tableAt t).counters.record e
      | none => (m.world.tableAt t).counters := by
  obtain ⟨rest, hh, -, rfl⟩ := exists_of_step h
  cases s with
  | record c o =>
    have hc := World.lt_size_of_isOwned (hm.accounted.isOwned_call
      (mem_of_needs hh (.entered c o) List.mem_cons_self) rfl)
    have hw : ((m.next (.record c o) rest).world.tableAt t).counters =
        ((m.world.count c.table (c.counted o m.world)).tableAt t).counters := by
      show ((c.record o m.world).tables[t]?.getD default).counters = _
      rw [c.tables_record]
      rfl
    rw [hw, World.counters_count hc, Step.tally]
    split <;> rfl
  | settle r b =>
    have hr := World.lt_size_of_isOwned (hm.accounted.isOwned (t := r.table)
      (mem_of_needs hh (.detached r b) List.mem_cons_self) List.mem_cons_self)
    let e : Counters.Entry := .reclaim b (World.entryBytes r.key (m.world.text r.gone))
    have hw : ((m.next (.settle r b) rest).world.tableAt t).counters =
        ((m.world.count r.table e).tableAt t).counters := by
      show ((r.settle b m.world).tables[t]?.getD default).counters = _
      rw [r.tables_settle]
      exact World.counters_removeOwner r.table t
    rw [hw, World.counters_count hr, Step.tally]
    split <;> rfl
  | _ => exact Step.counters_effect (by simp) (by simp)

theorem callsOf_step (h : m.step s = some m') (p : Outcome → Bool) :
    m'.callsOf t p = m.callsOf t p +
      s.recorded.toList.countP (fun x => x.1.table = t ∧ p x.2 = true) := by
  rw [callsOf, recorded_step h, List.countP_append, Nat.add_comm]
  rfl

theorem doneOf_step (h : m.step s = some m') (p : Bool → Bool) :
    m'.doneOf t p = m.doneOf t p +
      s.settled.toList.countP (fun x => x.1.table = t ∧ p x.2 = true) := by
  rw [doneOf, settled_step h, List.countP_append, Nat.add_comm]
  rfl

/-- A call that is counted is one more of its kind. -/
theorem callsOf_record {c : Call} {o : Outcome} (h : m.step (.record c o) = some m')
    (hc : c.table = t) (p : Outcome → Bool) : UInt64.ofNat (m'.callsOf t p) =
      if p o = true then .ofNat (m.callsOf t p) + 1 else .ofNat (m.callsOf t p) := by
  rw [callsOf_step h, Step.recorded, Option.toList_some, List.countP_singleton]
  simp only [hc, true_and, decide_eq_true_eq]
  split
  · rw [UInt64.ofNat_add]
    rfl
  · rw [Nat.add_zero]

/-- A reclamation that is counted is one more of its kind. -/
theorem doneOf_settle {r : Reclamation} {b : Bool} (h : m.step (.settle r b) = some m')
    (hr : r.table = t) (p : Bool → Bool) : UInt64.ofNat (m'.doneOf t p) =
      if p b = true then .ofNat (m.doneOf t p) + 1 else .ofNat (m.doneOf t p) := by
  rw [doneOf_step h, Step.settled, Option.toList_some, List.countP_singleton]
  simp only [hr, true_and, decide_eq_true_eq]
  split
  · rw [UInt64.ofNat_add]
    rfl
  · rw [Nat.add_zero]

theorem Tallied.step (hm : m.Sound) (h : m.step s = some m') (ht : m.Tallied t) :
    m'.Tallied t := by
  have hc := hm.counters_step h t
  -- A step that counts nothing in the table adds nothing to its history.
  have hquiet : s.tally m.world t = none →
      (∀ p, m'.callsOf t p = m.callsOf t p) → (∀ p, m'.doneOf t p = m.doneOf t p) →
      m'.Tallied t := by
    intro hn hcalls hdone
    rw [hn] at hc
    obtain ⟨h₁, h₂, h₃, h₄, h₅, h₆⟩ := ht
    refine ⟨?_, ?_, ?_, ?_, ?_, ?_⟩ <;> rw [hc]
    · rw [hcalls, h₁]
    · rw [hcalls, h₂]
    · rw [hcalls, h₃]
    · rw [hcalls, h₄]
    · rw [hdone, h₅]
    · rw [hdone, h₆]
  have hcallsOf := fun p => callsOf_step (t := t) h p
  have hdoneOf := fun p => doneOf_step (t := t) h p
  cases s with
  | record c o =>
    have hdone : ∀ p, m'.doneOf t p = m.doneOf t p := hdoneOf
    by_cases hct : c.table = t
    · rw [Step.tally, if_pos hct] at hc
      have hcalls := callsOf_record h hct
      obtain ⟨h₁, h₂, h₃, h₄, h₅, h₆⟩ := ht
      refine ⟨?_, ?_, ?_, ?_, ?_, ?_⟩ <;> rw [hc]
      · rw [hcalls, ← h₁]
        cases o <;> rfl
      · rw [hcalls, ← h₂]
        cases o <;> rfl
      · rw [hcalls, ← h₃]
        cases o <;> rfl
      · rw [hcalls, ← h₄]
        cases o <;> rfl
      · rw [hdone, ← h₅]
        cases o <;> rfl
      · rw [hdone, ← h₆]
        cases o <;> rfl
    · refine hquiet (if_neg hct) (fun p => ?_) hdone
      rw [hcallsOf]
      simp [Step.recorded, hct]
  | settle r b =>
    have hcalls : ∀ p, m'.callsOf t p = m.callsOf t p := hcallsOf
    by_cases hrt : r.table = t
    · rw [Step.tally, if_pos hrt] at hc
      have hdone := doneOf_settle h hrt
      obtain ⟨h₁, h₂, h₃, h₄, h₅, h₆⟩ := ht
      refine ⟨?_, ?_, ?_, ?_, ?_, ?_⟩ <;> rw [hc]
      · rw [hcalls, ← h₁]
        rfl
      · rw [hcalls, ← h₂]
        rfl
      · rw [hcalls, ← h₃]
        rfl
      · rw [hcalls, ← h₄]
        rfl
      · rw [hdone, ← h₅]
        rfl
      · rw [hdone, ← h₆]
        cases b <;> rfl
    · refine hquiet (if_neg hrt) hcalls fun p => ?_
      rw [hdoneOf]
      simp [Step.settled, hrt]
  | _ => exact hquiet rfl hcallsOf hdoneOf

theorem tallied_empty (t : TableId) : Tallied {} t := ⟨rfl, rfl, rfl, rfl, rfl, rfl⟩

theorem Tallied.of_run {steps : List Step} (ht : m.Tallied t) (hm : m.Sound)
    (h : run steps m = some m') : m'.Tallied t := by
  have hp : m'.Sound ∧ m'.Tallied t :=
    run_induction (P := fun x => x.Sound ∧ x.Tallied t)
      (fun _ _ _ _ hx h => ⟨hx.1.step h, hx.2.step hx.1 h⟩) ⟨hm, ht⟩ h
  exact hp.2

/-- In every run the counters of a table are those of its history. -/
theorem tallied_of_run {steps : List Step} (h : run steps {} = some m) (t : TableId) :
    m.Tallied t := (tallied_empty t).of_run sound_empty h

end Machine

/-! ### Bytes -/

namespace World

variable {w w' : World} (p : TableId → Bool)

theorem bytesDue_add (x y : Multiset Reclamation) :
    w.bytesDue p (x + y) = w.bytesDue p x + w.bytesDue p y := by
  rw [bytesDue, Multiset.filter_add, Multiset.map_add, Multiset.sum_add]
  rfl

theorem bytesDue_le {x y : Multiset Reclamation} (h : x ≤ y) : w.bytesDue p x ≤ w.bytesDue p y := by
  obtain ⟨z, rfl⟩ := Multiset.le_iff_exists_add.1 h
  rw [bytesDue_add]
  exact Nat.le_add_right _ _

theorem bytesDue_eq_zero {rs : Multiset Reclamation} (h : ∀ r ∈ rs, p r.table = false) :
    w.bytesDue p rs = 0 := by
  rw [bytesDue, Multiset.filter_eq_nil.2 fun r hr => by rw [h r hr]; exact Bool.false_ne_true]
  rfl

theorem bytesDue_singleton (r : Reclamation) :
    w.bytesDue p ↑[r] =
      if p r.table = true then r.key.utf8ByteSize + (w.text r.gone).utf8ByteSize else 0 := by
  rw [bytesDue, Multiset.filter_coe, Multiset.map_coe, Multiset.sum_coe]
  split
  · next h => rw [List.filter_singleton]; simp [h]
  · next h => rw [List.filter_singleton]; simp [h]

/-- Texts never change, so the bytes that are due do not. -/
theorem bytesDue_congr (h : w.Extends w') {rs : Multiset Reclamation}
    (hrs : ∀ r ∈ rs, r.gone < w.instances.size) : w'.bytesDue p rs = w.bytesDue p rs := by
  unfold bytesDue
  refine congrArg _ (Multiset.map_congr rfl fun r hr => ?_)
  rw [h.text r.gone (hrs r (Multiset.mem_of_mem_filter hr))]

end World

namespace Machine

variable {m m' : Machine} {s : Step} {t : TableId} (p : TableId → Bool)

/-- The bytes of the instances stored so far. -/
def internedBytes (m : Machine) : Nat := m.world.bytesDue p (dues m.interned)

/-- The bytes of the instances stored by calls that were counted. -/
def recordedBytes (m : Machine) : Nat := m.world.bytesDue p (dues (m.recorded : Multiset _))

/-- The bytes of the instances whose reclamations are done. -/
def doneBytes (m : Machine) : Nat := m.world.bytesDue p m.done

theorem Valid.dues_recorded_le (hm : m.Valid) :
    dues (m.recorded : Multiset (Call × Outcome)) ≤ dues m.interned := by
  rw [hm.installed.calls, dues_add]
  exact Multiset.le_add_left _ _

theorem Valid.lt_size_of_due (hm : m.Valid) : ∀ r ∈ dues m.interned,
    r.gone < m.world.instances.size := by
  intro r hr
  obtain ⟨c, o, hco, hdue⟩ := answer_of_mem_dues hr
  cases o with
  | hit => cases hdue
  | stored i stale rejected =>
    obtain rfl := Option.some.inj hdue
    exact hm.answered.instance? _ hco i rfl

theorem Valid.done_le (hm : m.Valid) : m.done ≤ dues (m.recorded : Multiset (Call × Outcome)) := by
  refine le_trans ?_ hm.reclamations_le
  rw [reclamations, spent, Multiset.map_add, done, ← Multiset.map_coe]
  exact le_trans (Multiset.le_add_left _ _) (Multiset.le_add_left _ _)

/-- No more bytes were given back than were counted, and no more counted than stored. -/
theorem Valid.bytes_le (hm : m.Valid) :
    m.doneBytes p ≤ m.recordedBytes p ∧ m.recordedBytes p ≤ m.internedBytes p :=
  ⟨World.bytesDue_le p hm.done_le, World.bytesDue_le p hm.dues_recorded_le⟩

/-- What is counted as given back was counted as stored, and that was stored. -/
theorem Valid.dues_le (hm : m.Valid) : m.done ≤ dues m.interned :=
  le_trans hm.done_le hm.dues_recorded_le

theorem dues_recorded_step (h : m.step s = some m') :
    dues (m'.recorded : Multiset (Call × Outcome)) =
      s.gain + dues (m.recorded : Multiset (Call × Outcome)) := by
  rw [recorded_step h, ← Multiset.coe_add, dues_add]
  rfl

theorem done_step (h : m.step s = some m') : m'.done = s.loss + m.done := by
  rw [done, settled_step h, List.map_append, ← Multiset.coe_add, Step.loss]
  cases s.settled <;> rfl

/-- What a step counts was stored before. -/
theorem Valid.due_of_step (hm : m.Valid) (h : m.step s = some m') {r : Reclamation}
    (hr : r ∈ s.gain + s.loss) : r ∈ dues m.interned := by
  rcases Multiset.mem_add.1 hr with hr | hr
  · rw [hm.installed.calls, dues_add]
    refine Multiset.mem_add.2 (.inl ?_)
    exact Multiset.mem_of_le (Multiset.filterMap_le_filterMap _ (recorded_le_entered h)) hr
  · obtain ⟨x, hx, rfl⟩ := Option.map_eq_some_iff.1 (Option.mem_toList.1 (Multiset.mem_coe.1 hr))
    have hspent : x ∈ m.spent := Multiset.mem_add.2 (.inl (Multiset.mem_of_le
      (settled_le_detached h) (Multiset.mem_coe.2 (Option.mem_toList.2 hx))))
    have hrec : x.1 ∈ m.reclamations :=
      Multiset.mem_add.2 (.inr (Multiset.mem_map_of_mem Prod.fst hspent))
    exact Multiset.mem_of_le hm.dues_recorded_le (Multiset.mem_of_le hm.reclamations_le hrec)

theorem Valid.recordedBytes_step (hm : m.Valid) (h : m.step s = some m') :
    m'.recordedBytes p = m.world.bytesDue p s.gain + m.recordedBytes p := by
  rw [recordedBytes, dues_recorded_step h,
    World.bytesDue_congr p (hm.sound.accounted.extends_step h), World.bytesDue_add]
  · rfl
  · intro r hr
    refine hm.lt_size_of_due r ?_
    rcases Multiset.mem_add.1 hr with hr | hr
    · exact hm.due_of_step h (Multiset.mem_add.2 (.inl hr))
    · exact Multiset.mem_of_le hm.dues_recorded_le hr

theorem Valid.doneBytes_step (hm : m.Valid) (h : m.step s = some m') :
    m'.doneBytes p = m.world.bytesDue p s.loss + m.doneBytes p := by
  rw [doneBytes, done_step h, World.bytesDue_congr p (hm.sound.accounted.extends_step h),
    World.bytesDue_add]
  · rfl
  · intro r hr
    refine hm.lt_size_of_due r ?_
    rcases Multiset.mem_add.1 hr with hr | hr
    · exact hm.due_of_step h (Multiset.mem_add.2 (.inr hr))
    · exact Multiset.mem_of_le hm.dues_le hr

theorem entryBytes_toNat {key text : String} (h : key.utf8ByteSize + text.utf8ByteSize < 2 ^ 64) :
    (World.entryBytes key text).toNat = key.utf8ByteSize + text.utf8ByteSize := by
  rw [World.entryBytes, UInt64.toNat_ofNat']
  exact Nat.mod_eq_of_lt h

/-- The byte counter of a table gains what a call stored there, loses what a reclamation gives back
there, or stays. -/
theorem Sound.bytes_cases (hm : m.Sound) (h : m.step s = some m') (t : TableId) :
    (∃ r : Reclamation, r.table = t ∧ s.gain = ↑[r] ∧ s.loss = 0 ∧
      (m'.world.tableAt t).counters.bytes = (m.world.tableAt t).counters.bytes +
        World.entryBytes r.key (m.world.text r.gone)) ∨
    (∃ r : Reclamation, r.table = t ∧ s.gain = 0 ∧ s.loss = ↑[r] ∧
      (m'.world.tableAt t).counters.bytes = subSaturating (m.world.tableAt t).counters.bytes
        (World.entryBytes r.key (m.world.text r.gone))) ∨
    ((∀ r ∈ s.gain + s.loss, r.table ≠ t) ∧
      (m'.world.tableAt t).counters.bytes = (m.world.tableAt t).counters.bytes) := by
  have hc := congrArg Counters.bytes (hm.counters_step h t)
  have hnone : ∀ r ∈ (0 : Multiset Reclamation), r.table ≠ t := fun r hr =>
    absurd hr (Multiset.notMem_zero r)
  cases s with
  | record c o =>
    rw [Step.tally] at hc
    by_cases hct : c.table = t
    · rw [if_pos hct] at hc
      cases o with
      | hit i => exact .inr (.inr ⟨hnone, hc⟩)
      | stored i stale rejected => exact .inl ⟨⟨c.table, c.key, i⟩, hct, rfl, rfl, hc⟩
    · rw [if_neg hct] at hc
      refine .inr (.inr ⟨fun r hr => ?_, hc⟩)
      cases o with
      | hit i => exact hnone r hr
      | stored i stale rejected =>
        obtain rfl := Multiset.mem_singleton.1 hr
        exact hct
  | settle r b =>
    rw [Step.tally] at hc
    by_cases hrt : r.table = t
    · rw [if_pos hrt] at hc
      exact .inr (.inl ⟨r, hrt, rfl, rfl, hc⟩)
    · rw [if_neg hrt] at hc
      refine .inr (.inr ⟨fun r' hr => ?_, hc⟩)
      obtain rfl := Multiset.mem_singleton.1 hr
      exact hrt
  | _ => exact .inr (.inr ⟨hnone, hc⟩)

/-- As long as the bytes that were counted and not given back fit in a word whenever something is
counted as stored, a table counts them exactly: nothing is cut off. -/
theorem Valid.bytes_step (hm : m.Valid) (h : m.step s = some m') (t : TableId)
    (hfit : s.gain ≠ 0 → m'.recordedBytes (· = t) < 2 ^ 64 + m'.doneBytes (· = t))
    (hb : (m.world.tableAt t).counters.bytes.toNat + m.doneBytes (· = t) =
      m.recordedBytes (· = t)) :
    (m'.world.tableAt t).counters.bytes.toNat + m'.doneBytes (· = t) =
      m'.recordedBytes (· = t) := by
  have hrecorded := hm.recordedBytes_step (fun u => decide (u = t)) h
  have hdone := hm.doneBytes_step (fun u => decide (u = t)) h
  obtain ⟨hle₁, hle₂⟩ := (hm.step h).bytes_le (fun u => decide (u = t))
  have hword := (m.world.tableAt t).counters.bytes.toNat_lt
  have hzero : m.world.bytesDue (fun u => decide (u = t)) 0 = 0 := rfl
  have hone : ∀ r : Reclamation, r.table = t →
      m.world.bytesDue (fun u => decide (u = t)) ↑[r] =
        r.key.utf8ByteSize + (m.world.text r.gone).utf8ByteSize := fun r hr =>
    (World.bytesDue_singleton _ r).trans (if_pos (decide_eq_true hr))
  rcases hm.sound.bytes_cases h t with ⟨r, hr, hg, hl, hc⟩ | ⟨r, hr, hg, hl, hc⟩ | ⟨hn, hc⟩
  · have hfit := hfit (by rw [hg]; exact Multiset.singleton_ne_zero r)
    rw [hg, hone r hr] at hrecorded
    rw [hl, hzero] at hdone
    -- What is counted now is not given back, so it fits.
    have hsum : (m.world.tableAt t).counters.bytes.toNat +
        (r.key.utf8ByteSize + (m.world.text r.gone).utf8ByteSize) < 2 ^ 64 := by omega
    rw [hc, UInt64.toNat_add, entryBytes_toNat (by omega), Nat.mod_eq_of_lt hsum]
    omega
  · rw [hg, hzero] at hrecorded
    rw [hl, hone r hr] at hdone
    rw [hc, toNat_subSaturating, entryBytes_toNat (by omega)]
    omega
  · have hnot : ∀ r ∈ s.gain + s.loss, decide (r.table = t) = false := fun r hr =>
      decide_eq_false (hn r hr)
    have hadd := World.bytesDue_eq_zero (w := m.world) (fun u => decide (u = t)) hnot
    rw [World.bytesDue_add] at hadd
    rw [hc]
    omega

end Machine

end Interning
