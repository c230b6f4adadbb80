import Interning.Interner
import Interning.Proofs.Machine.Comparison
import Interning.Proofs.World.Bystanders
import Interning.Proofs.World.Exchange

/-!
# A handle used up is a handle kept and dropped

A call uses up the handle that it is given.  Where that was the last one, the instance goes in the
middle of the call, and the table where it is registered is told, which may be the one where the
call has just stored a copy.  A caller who keeps another handle and drops it after the call ends up
with the same: what the table is told, and what the call counts, may come in either order.

    a loss that is there, and a gain that fits beside it    (Counters.recordMiss_recordReclaim,
                                                                      MemoryTracker.record_swap)
    the counting of a call and a dropped handle                                   (drop_record)
    a handle used up, and one kept and dropped, in any state                   (used_up_as_kept)
-/

namespace Interning

/-! ## Algorithm -/

namespace World

/-- Two worlds are the same but for their journals, and these report the same events in some
order. -/
structure SameButOrder (w w' : World) : Prop extends Alike w w' where
  events : w'.events.Perm w.events

/-- What is reported when a handle is dropped. -/
def reported (w : World) (i : InstanceId) : List Event :=
  match w.told i with
  | some r =>
    [if (w.entries r.table).get? r.key = some i then .entryReclaimed r.key
      else .reclamationIgnored r.key]
  | none => []

/-- What a table is told to give back is there, and what a call gains in a table fits beside it. -/
structure Swaps (w : World) (t : TableId) (gain : UInt64) (u : TableId) (loss : UInt64) :
    Prop where
  counter : u = t → loss.toNat ≤ (w.tableAt t).counters.bytes.toNat ∧
    (w.tableAt t).counters.bytes.toNat + gain.toNat < 2 ^ 64
  items : w.isTracked t = true → w.isTracked u = true →
    1 ≤ w.tracker.items.toNat ∧ w.tracker.items.toNat + 1 < 2 ^ 64
  bytes : w.isTracked t = true → w.isTracked u = true →
    loss.toNat ≤ w.tracker.bytes.toNat ∧ w.tracker.bytes.toNat + gain.toNat < 2 ^ 64
  signed : w.isTracked t = true → w.isTracked u = true →
    loss.toNat < 2 ^ 63 ∧ gain.toNat < 2 ^ 63

/-- An entry of this many bytes fits in the words that count the bytes of a table. -/
structure HasRoom (w : World) (t : TableId) (gain : Nat) : Prop where
  counter : (w.tableAt t).counters.bytes.toNat + gain < 2 ^ 64
  items : w.isTracked t = true → w.tracker.items.toNat + 1 < 2 ^ 64
  bytes : w.isTracked t = true → w.tracker.bytes.toNat + gain < 2 ^ 64
  signed : w.isTracked t = true → gain < 2 ^ 63

end World

namespace Interner

/-- Interns a handle of which another one is kept, and drops that one afterwards. -/
def internKept (n : Interner) (v : InstanceId) (w : World) : InstanceId × World :=
  let (i, w) := n.intern (.handle v) (w.addHandle v)
  (i, w.drop v)

/-- A handle used up has one answer with a handle kept and dropped, and they leave the same state:
only the events may come in another order. -/
structure UsedUpAsKept (n : Interner) (v : InstanceId) (w : World) : Prop where
  answer : (n.internKept v w).1 = (n.intern (.handle v) w).1
  world : (n.intern (.handle v) w).2.SameButOrder (n.internKept v w).2
  /-- In a table the whole outcome is the same. -/
  outcome : ∀ t, n.strategy = .table t →
    ((w.addHandle v).intern t n.normalizer (.handle v)).1 =
      (w.intern t n.normalizer (.handle v)).1

end Interner

/-! ## Lemmas -/

/-! ### Words -/

namespace Counters

/-- What is lost is there, so it may go before or after what comes. -/
theorem recordMiss_recordReclaim (c : Counters) (stale removed : Bool) {gain loss : UInt64}
    (hl : loss.toNat ≤ c.bytes.toNat) (hg : c.bytes.toNat + gain.toNat < 2 ^ 64) :
    (c.recordMiss stale gain).recordReclaim removed loss =
      (c.recordReclaim removed loss).recordMiss stale gain := by
  have hbytes : subSaturating (c.bytes + gain) loss = subSaturating c.bytes loss + gain := by
    refine UInt64.toNat_inj.1 ?_
    rw [toNat_subSaturating, UInt64.toNat_add, UInt64.toNat_add, toNat_subSaturating,
      Nat.mod_eq_of_lt hg, Nat.mod_eq_of_lt (by omega)]
    omega
  cases stale <;> cases removed <;> simp [recordMiss, recordReclaim, hbytes]

end Counters

theorem Table.reclaim_recordMiss (x : Table) (key : String) (i : InstanceId) (stale : Bool)
    {gain loss : UInt64} (hl : loss.toNat ≤ x.counters.bytes.toNat)
    (hg : x.counters.bytes.toNat + gain.toNat < 2 ^ 64) :
    ({ x with counters := x.counters.recordMiss stale gain } : Table).reclaim key i loss =
      { x.reclaim key i loss with
        counters := (x.reclaim key i loss).counters.recordMiss stale gain } := by
  have hcounters := x.counters.recordMiss_recordReclaim stale
    (decide (x.entries.get? key = some i)) hl hg
  exact (Table.mk.injEq ..).mpr ⟨rfl, rfl, rfl, rfl, hcounters⟩

namespace MemoryTracker

variable {m : MemoryTracker} {gain loss : UInt64}

theorem record_swap (hi : 1 ≤ m.items.toNat ∧ m.items.toNat + 1 < 2 ^ 64)
    (hb : loss.toNat ≤ m.bytes.toNat ∧ m.bytes.toNat + gain.toNat < 2 ^ 64)
    (hs : loss.toNat < 2 ^ 63 ∧ gain.toNat < 2 ^ 63) :
    (m.record 1 gain.toInt64).record (-1) (-loss.toInt64) =
      (m.record (-1) (-loss.toInt64)).record 1 gain.toInt64 := by
  obtain ⟨hgi, hgb⟩ := toNat_record_gain hs.2 hi.2 hb.2
  obtain ⟨hli, hlb⟩ := toNat_record_loss hs.1 hi.1 hb.1
  obtain ⟨hi₁, hb₁⟩ := toNat_record_loss (m := m.record 1 gain.toInt64) hs.1 (by omega) (by omega)
  obtain ⟨hi₂, hb₂⟩ := toNat_record_gain (m := m.record (-1) (-loss.toInt64)) hs.2
    (by omega) (by omega)
  have hitems : ((m.record 1 gain.toInt64).record (-1) (-loss.toInt64)).items =
      ((m.record (-1) (-loss.toInt64)).record 1 gain.toInt64).items :=
    UInt64.toNat_inj.1 (by omega)
  have hbytes : ((m.record 1 gain.toInt64).record (-1) (-loss.toInt64)).bytes =
      ((m.record (-1) (-loss.toInt64)).record 1 gain.toInt64).bytes :=
    UInt64.toNat_inj.1 (by omega)
  exact (MemoryTracker.mk.injEq ..).mpr ⟨hitems, hbytes⟩

end MemoryTracker

/-! ### What is reported -/

theorem Reclamation.events_run (r : Reclamation) (w : World) :
    (r.run w).events = w.events ++
      [if (w.entries r.table).get? r.key = some r.gone then .entryReclaimed r.key
        else .reclamationIgnored r.key] := by
  have hsettle : ∀ b u, (r.settle b u).events =
      u.events ++ [if b then .entryReclaimed r.key else .reclamationIgnored r.key] := by
    intro b u
    refine (World.events_report _ _).trans ?_
    congr 1
    rw [World.accountLoss]
    split <;> rfl
  have hdetach : (r.detach w).2.events = w.events := by
    have hlock : (w.note (.lock r.table)).events = w.events := World.events_note rfl w
    have hunlock : ∀ u : World, (u.note (.unlock r.table)).events = u.events :=
      World.events_note rfl
    unfold detach World.locked
    dsimp only
    split
    · exact (hunlock _).trans hlock
    · exact (hunlock _).trans hlock
  show (r.settle (r.detach w).1 (r.detach w).2).events = _
  rw [hsettle, hdetach, r.detach_fst]
  simp

namespace World

variable {w w' : World} {i : InstanceId}

theorem release_fst (i : InstanceId) (w : World) :
    (w.release i).1 = (w.told i).map fun r => ⟨r.table, r.key, i⟩ := by
  rcases w.release_told i with ⟨r, j, hr, he⟩ | ⟨hn, j, he⟩
  · rw [he, hr]
    rfl
  · rw [he, hn]
    rfl

theorem entries_release (i : InstanceId) (s : TableId) (w : World) :
    (w.release i).2.entries s = w.entries s := by
  rcases w.release_told i with ⟨r, j, -, he⟩ | ⟨-, j, he⟩
  · rw [he]
    exact field_modifyTable Table.entries (fun _ => by rfl) r.table s
  · rw [he]
    rfl

theorem events_release (i : InstanceId) (w : World) : (w.release i).2.events = w.events := by
  have hlast : ∀ u : World, (u.note (.lastRelease i)).events = u.events := events_note rfl
  unfold release
  dsimp only
  split
  · split
    · split
      · exact hlast _
      · exact hlast _
    · exact hlast _
  · rfl

theorem events_drop (i : InstanceId) (w : World) :
    (w.drop i).events = w.events ++ w.reported i := by
  show ((w.release i).2.reclaim (w.release i).1).events = _
  rw [release_fst, reported]
  cases w.told i with
  | none => exact (events_release i w).trans (List.append_nil _).symm
  | some r =>
    refine (Reclamation.events_run _ _).trans ?_
    rw [events_release, entries_release]

end World

/-! ### Counting and dropping -/

namespace Call

variable {w : World} {c : Call}

theorem events_record (c : Call) (x : InstanceId) (stale : Bool) (rejected : Option InstanceId)
    (w : World) :
    (c.record (.stored x stale rejected) w).events =
      w.events ++ if stale then [.deadEntryReplaced c.key] else [] := by
  have hgain : ∀ bytes (u : World), (u.accountGain c.table bytes).events = u.events := by
    intro bytes u
    rw [World.accountGain]
    split <;> rfl
  cases stale with
  | false => exact (hgain _ _).trans (List.append_nil _).symm
  | true =>
    refine (World.events_report _ _).trans ?_
    rw [hgain]
    rfl

end Call

namespace World

variable {w : World} {c : Call} {v x : InstanceId} {stale : Bool} {rejected : Option InstanceId}

/-! The counting of a call and a dropped handle may come in either order. -/

theorem instanceAt_drop_record (c : Call) (o : Outcome) (v i : InstanceId) (w : World) :
    ((c.record o w).drop v).instanceAt i = (c.record o (w.drop v)).instanceAt i := by
  have hsame : ∀ u : World, (c.record o u).instanceAt i = u.instanceAt i := fun u => by
    rw [instanceAt, c.instances_record]
    rfl
  rw [hsame, instanceAt_drop, instanceAt_drop, hsame, handles_congr (c.instances_record _ w)]

theorem tableAt_drop_record (ho : w.isOwned c.table = true)
    (hx : ∀ r, w.told v = some r → w.Swaps c.table (entryBytes c.key (w.text x)) r.table
      (entryBytes r.key (w.text v))) (s : TableId) :
    ((c.record (.stored x stale rejected) w).drop v).tableAt s =
      (c.record (.stored x stale rejected) (w.drop v)).tableAt s := by
  have ht := lt_size_of_isOwned ho
  have ht' := lt_size_of_isOwned ((isOwned_drop v c.table w).trans ho)
  rw [tableAt_drop, tableAfterDrop, c.told_record, text_congr (c.instances_record _ w),
    c.tableAt_record ht, c.tableAt_record ht', tableAt_drop, tableAfterDrop, text_drop]
  cases hr : w.told v with
  | none => rfl
  | some r =>
    by_cases hs : s = c.table <;> by_cases hu : s = r.table
    · subst hs
      obtain ⟨hl, hg⟩ := (hx r hr).counter hu.symm
      simp only [if_pos hu, if_true]
      exact (w.tableAt c.table).reclaim_recordMiss r.key v stale hl hg
    · simp only [if_neg hu]
    · simp only [if_neg hs]
    · simp only [if_neg hs, if_neg hu]

theorem tracker_drop_record
    (hx : ∀ r, w.told v = some r → w.Swaps c.table (entryBytes c.key (w.text x)) r.table
      (entryBytes r.key (w.text v))) :
    ((c.record (.stored x stale rejected) w).drop v).tracker =
      (c.record (.stored x stale rejected) (w.drop v)).tracker := by
  simp only [tracker_drop, c.told_record, tracker_record, text_congr (c.instances_record _ w),
    c.isTracked_record, isTracked_drop, text_drop]
  cases hr : w.told v with
  | none => rfl
  | some r =>
    have h := hx r hr
    by_cases hc : w.isTracked c.table = true <;> by_cases hu : w.isTracked r.table = true
    · simp only [if_pos hc, if_pos hu]
      exact MemoryTracker.record_swap (h.items hc hu) (h.bytes hc hu) (h.signed hc hu)
    · simp only [if_pos hc, if_neg hu]
    · simp only [if_neg hc, if_pos hu]
    · simp only [if_neg hc, if_neg hu]

theorem events_drop_record (c : Call) (x : InstanceId) (stale : Bool)
    (rejected : Option InstanceId) (v : InstanceId) (w : World) :
    ((c.record (.stored x stale rejected) w).drop v).events.Perm
      (c.record (.stored x stale rejected) (w.drop v)).events := by
  have hreported : (c.record (.stored x stale rejected) w).reported v = w.reported v := by
    rw [reported, reported, c.told_record]
    cases w.told v with
    | none => rfl
    | some r => simp only [c.entries_record]
  rw [events_drop, c.events_record, c.events_record, events_drop, hreported, List.append_assoc,
    List.append_assoc]
  exact List.perm_append_comm.append_left _

theorem drop_record (ho : w.isOwned c.table = true)
    (hx : ∀ r, w.told v = some r → w.Swaps c.table (entryBytes c.key (w.text x)) r.table
      (entryBytes r.key (w.text v))) :
    (c.record (.stored x stale rejected) (w.drop v)).SameButOrder
      ((c.record (.stored x stale rejected) w).drop v) where
  instances i := instanceAt_drop_record c _ v i w
  tables := tableAt_drop_record ho hx
  tracker := tracker_drop_record hx
  events := events_drop_record c x stale rejected v w

theorem SameButOrder.of_eq {w' : World} (h : w' = w) : w.SameButOrder w' := by
  subst h
  exact ⟨.refl _, .refl _⟩

/-! ### A copy that is stored -/

variable {t : TableId} {key text : String}

/-- A copy that is stored is not counted yet. -/
theorem Swaps.copied {u : TableId} {gain loss : UInt64} (h : w.Swaps t gain u loss)
    (ht : t < w.tables.size) (j : Array Act) :
    (((w.create text).2.install t key w.instances.size).withJournal j).Swaps t gain u loss := by
  let w' := ((w.create text).2.install t key w.instances.size).withJournal j
  have hcounters : (w'.tableAt t).counters = (w.tableAt t).counters := by
    show (((w.create text).2.install t key _).tableAt t).counters = _
    rw [tableAt_install (w := (w.create text).2) ht, if_pos rfl]
    rfl
  have htracked : ∀ s, w'.isTracked s = w.isTracked s := fun s => by
    show (((w.create text).2.install t key _).tableAt s).tracked = _
    rw [tableAt_install (w := (w.create text).2) ht]
    split
    · next hs => rw [hs]; rfl
    · rfl
  have htracker : w'.tracker = w.tracker := by
    show ((w.create text).2.install t key _).tracker = _
    rw [install]
    cases ((w.create text).2.tableAt t).storage <;> rfl
  constructor
  case counter => rw [hcounters]; exact h.counter
  case items => rw [htracked, htracked, htracker]; exact h.items
  case bytes => rw [htracked, htracked, htracker]; exact h.bytes
  case signed => rw [htracked, htracked]; exact h.signed

/-- Whoever is told of a handle is told of it beside the copy, too. -/
theorem told_copied (hs : (w.tableAt t).storage = .reclaiming) (hv : v < w.instances.size)
    (j : Array Act) :
    (((w.create text).2.install t key w.instances.size).withJournal j).told v = w.told v := by
  have hne : v ≠ w.instances.size := Nat.ne_of_lt hv
  have hx : w.instances.size < (w.create text).2.instances.size :=
    (size_create text).symm ▸ Nat.lt_succ_self _
  have hhandles : ((w.create text).2.install t key w.instances.size).handles v = w.handles v := by
    rw [handles_install t key hx, if_neg (fun hc => hne hc.2), handles_create, if_neg hne]
    rfl
  have hregistration : ((w.create text).2.install t key w.instances.size).registration v =
      w.registration v := by
    rw [registration_install (w := (w.create text).2) key hs hx, if_neg hne, registration_create]
  have howned : ∀ s, ((w.create text).2.install t key w.instances.size).isOwned s =
      w.isOwned s := fun s => by
    rw [isOwned, owners_install]
    rfl
  show (if ((w.create text).2.install t key _).handles v = 1 then
    (((w.create text).2.install t key _).registration v).filter
      fun r => ((w.create text).2.install t key _).isOwned r.table else none) = _
  rw [hhandles, hregistration]
  simp only [howned]
  rfl

/-- Where a copy is stored, what it was made of may be dropped before the call is counted, or
after. -/
theorem drop_record_copied {c : Call} (hs : (w.tableAt c.table).storage = .reclaiming)
    (hv : v < w.instances.size) (ho : w.isOwned c.table = true)
    (hx : ∀ r, w.told v = some r → w.Swaps c.table (entryBytes c.key (w.text v)) r.table
      (entryBytes r.key (w.text v))) (j : Array Act) :
    let w' := ((w.create (w.text v)).2.install c.table c.key w.instances.size).withJournal j
    (c.record (.stored w.instances.size stale rejected) (w'.drop v)).SameButOrder
      ((c.record (.stored w.instances.size stale rejected) w').drop v) := by
  intro w'
  have howned : w'.isOwned c.table = true := by
    show decide (0 < (((w.create (w.text v)).2.install c.table c.key _).tableAt c.table).owners) =
      true
    rw [owners_install]
    exact ho
  have htexts : ∀ i, w'.text i = (w.create (w.text v)).2.text i := text_install c.table c.key _
  refine drop_record howned fun r hr => ?_
  rw [htexts, htexts, text_create, if_pos rfl, text_create_of_lt _ hv]
  exact (hx r ((told_copied hs hv j).symm.trans hr)).copied (lt_size_of_isOwned ho) j

end World

/-! ### Calls -/

namespace Call

open World

variable {w : World} {t : TableId} {key : String} {v : InstanceId}

/-- What is given is live until the call drops it. -/
theorem isLive_look {c : Call} (hv : w.isLive v = true) (hc : c.argument = .handle v) :
    (c.look w).2.isLive v = true := by
  cases hl : w.live? c.table c.key with
  | some i =>
    rw [look_of_live? hl]
    exact (isLive_addHandle (w := w.note (.lock c.table)) (isLive_of_live? hl) v).trans hv
  | none =>
    obtain ⟨x, rejected, w₁, j, hp, he⟩ := look_of_none hl
    have hleft : ∀ i ∈ c.argument.leftover, w.isLive i = true := by
      rw [hc]
      rintro i ⟨⟩
      exact hv
    have hw₁ : w₁.isLive v = true := by
      cases hp with
      | given => exact hv
      | fresh | copy => rw [isLive_create, hv, Bool.true_or]
    rw [he]
    exact (isLive_install (hp.isLive_self hleft) v).trans hw₁

/-- A call that uses up a handle ends as one of which another handle is kept and dropped. -/
theorem complete_kept (hv : w.isLive v = true) (ho : w.isOwned t = true)
    (hx : ∀ r, w.told v = some r → w.Swaps t (entryBytes key (w.text v)) r.table
      (entryBytes r.key (w.text v))) :
    (complete ⟨t, key, .handle v⟩ (w.addHandle v)).1 = (complete ⟨t, key, .handle v⟩ w).1 ∧
      (complete ⟨t, key, .handle v⟩ w).2.SameButOrder
        ((complete ⟨t, key, .handle v⟩ (w.addHandle v)).2.drop v) := by
  let c : Call := ⟨t, key, .handle v⟩
  have hlive : (c.look w).2.isLive v = true := isLive_look hv rfl
  have hkept : ∀ o w', c.look w = (o, w') →
      c.complete (w.addHandle v) = (o, c.finish o (w'.addHandle v)) := by
    intro o w' h
    refine complete_of_look ?_
    rw [c.look_addHandle hv, h]
  -- Where the handle is dropped last or not at all, the other one makes no difference.
  have hlast : ∀ o, ((c.record o (c.look w).2).isLive v) = true := fun o => by
    rw [isLive, handles_congr (c.instances_record o _)]
    exact hlive
  cases hl : w.live? t key with
  | some i =>
    have hlook := look_of_live? (c := c) hl
    rw [hkept _ _ hlook, complete_of_look hlook]
    refine ⟨rfl, .of_eq ?_⟩
    show ((c.record _ (addHandle v _)).drop v).drop v = (c.record _ _).drop v
    rw [hlook] at hlast
    rw [c.record_addHandle, drop_addHandle (hlast _)]
  | none =>
    obtain ⟨x, rejected, w₁, j, hp, hlook⟩ := look_of_none (c := c) hl
    rw [hkept _ _ hlook, complete_of_look hlook]
    rw [hlook] at hlast hlive
    refine ⟨rfl, ?_⟩
    cases hp with
    | given hi =>
      obtain rfl := Argument.handle.inj hi
      let o : Outcome := .stored v ((w.entries t).contains key) none
      let w' := (w.install t key v).withJournal j
      refine .of_eq ?_
      show (c.record o (w'.addHandle v)).drop v = c.record o w'
      rw [c.record_addHandle, drop_addHandle (hlast o)]
    | fresh hi => cases hi
    | copy hi hs hr =>
      obtain rfl := Argument.handle.inj hi
      let w' := ((w.create (w.text v)).2.install t key w.instances.size).withJournal j
      let o : Outcome := .stored w.instances.size ((w.entries t).contains key) (some v)
      show (c.record o (w'.drop v)).SameButOrder ((c.record o ((w'.addHandle v).drop v)).drop v)
      rw [drop_addHandle hlive]
      exact drop_record_copied (c := c) hs (lt_size_of_isLive hv) ho hx j

end Call

namespace Interner

variable {n : Interner} {v : InstanceId} {w : World}

theorem internKept_of_table {t : TableId} (h : n.strategy = .table t) (v : InstanceId) (w : World) :
    n.internKept v w =
      (((w.addHandle v).intern t n.normalizer (.handle v)).1.canonical,
        ((w.addHandle v).intern t n.normalizer (.handle v)).2.drop v) := by
  rw [internKept, intern_of_table h]

theorem usedUpAsKept_of_table {t : TableId} (hs : n.strategy = .table t)
    (hv : w.isLive v = true) (ho : w.isOwned t = true)
    (hx : ∀ r, w.told v = some r →
      w.Swaps t (World.entryBytes (n.normalizer.key (w.text v)) (w.text v)) r.table
        (World.entryBytes r.key (w.text v))) : n.UsedUpAsKept v w := by
  let key := n.normalizer.key (w.text v)
  let u := w.note .normalize
  have hused : w.intern t n.normalizer (.handle v) = Call.complete ⟨t, key, .handle v⟩ u :=
    World.intern_eq_complete ..
  have hkept : (w.addHandle v).intern t n.normalizer (.handle v) =
      Call.complete ⟨t, key, .handle v⟩ (u.addHandle v) := by
    have hbegin : Call.begin t n.normalizer (.handle v) (w.addHandle v) =
        (⟨t, key, .handle v⟩, u.addHandle v) := by
      have hvalue : (Argument.handle v).value (w.addHandle v) = w.text v := World.text_addHandle v v
      rw [Call.begin, hvalue]
      rfl
    rw [World.intern_eq_complete, hbegin]
  -- Noting the normalization changes nothing the counters hold.
  have hswaps : ∀ r, u.told v = some r →
      u.Swaps t (World.entryBytes key (u.text v)) r.table (World.entryBytes r.key (u.text v)) :=
    fun r hr =>
      let h := hx r hr
      ⟨h.counter, h.items, h.bytes, h.signed⟩
  have hliveNoted : u.isLive v = true := hv
  obtain ⟨hanswer, hworld⟩ := Call.complete_kept hliveNoted ho hswaps
  refine ⟨?_, ?_, ?_⟩
  · rw [internKept_of_table hs, intern_of_table hs, hused, hkept, hanswer]
  · rw [internKept_of_table hs, intern_of_table hs, hused, hkept]
    exact hworld
  · intro s hs'
    obtain rfl := Strategy.table.inj (hs.symm.trans hs')
    rw [hused, hkept, hanswer]

end Interner

/-! ### Runs -/

namespace Machine

variable {m : Machine} {steps : List Step} {v : InstanceId} {t : TableId}

/-- An instance whose last handle is in the hand was counted, and is not given back yet. -/
theorem Valid.due_of_told (hm : m.Valid) (hv : .handle v ∈ m.hand) {r : Registration}
    (hr : m.world.told v = some r) :
    ↑[(⟨r.table, r.key, v⟩ : Reclamation)] + m.done ≤
      dues (m.recorded : Multiset (Call × Outcome)) := by
  -- The release of the handle would owe its reclamation.
  obtain ⟨rest, hrest⟩ := Multiset.exists_cons_of_mem hv
  have hneeds : m.hand = rest + ↑(Step.release v).needs := by
    rw [hrest, add_comm]
    rfl
  have hstep : m.step (.release v) = some (m.next (.release v) rest) :=
    step_eq_some hneeds trivial
  have howed : (⟨r.table, r.key, v⟩ : Reclamation) ∈ (m.next (.release v) rest).owed := by
    refine (Multiset.mem_filterMap _ _).2 ⟨.owed ⟨r.table, r.key, v⟩, ?_, rfl⟩
    refine Multiset.mem_add.2 (.inr (Multiset.mem_coe.2 ?_))
    show _ ∈ (m.world.release v).1.toList.map Token.owed
    rw [World.release_fst, hr]
    exact List.mem_cons_self
  have hle := (hm.step hstep).reclamations_le
  rw [reclamations, spent, Multiset.map_add] at hle
  refine le_trans (add_le_add (Multiset.singleton_le.2 howed) ?_) hle
  exact Multiset.le_add_left _ _

/-- In a run whose totals fit, what such an instance gives back is there. -/
theorem swaps_of_run (h : run steps {} = some m) (hv : .handle v ∈ m.hand) {r : Registration}
    (hr : m.world.told v = some r)
    (hb : Throughout (fun m => m.outstandingBytes r.table < 2 ^ 64) steps {})
    (hf : Throughout TrackerFits steps {}) {key : String}
    (hroom : m.world.HasRoom t (key.utf8ByteSize + (m.world.text v).utf8ByteSize)) :
    m.world.Swaps t (World.entryBytes key (m.world.text v)) r.table
      (World.entryBytes r.key (m.world.text v)) := by
  have hm := valid_of_run h
  have hdue := hm.due_of_told hv hr
  obtain ⟨-, hreg, -⟩ := World.told_eq_some_iff.1 hr
  let loss := r.key.utf8ByteSize + (m.world.text v).utf8ByteSize
  -- What the counters and the tracker hold is at least what the instance brought.
  have hbrought : ∀ p : TableId → Bool, p r.table = true →
      loss + m.doneBytes p ≤ m.recordedBytes p := fun p hp => by
    have hle := m.world.bytesDue_le p hdue
    rwa [World.bytesDue_add, World.bytesDue_singleton, if_pos hp] at hle
  have hcounter : loss ≤ (m.world.tableAt r.table).counters.bytes.toNat := by
    have hbytes := bytes_of_run h hb (hm.sound.registered.reclaiming v r hreg)
    have hle := hbrought (· = r.table) (decide_eq_true rfl)
    omega
  have hgain : (World.entryBytes key (m.world.text v)).toNat =
      key.utf8ByteSize + (m.world.text v).utf8ByteSize :=
    entryBytes_toNat (by
      have := hroom.counter
      omega)
  have hloss : (World.entryBytes r.key (m.world.text v)).toNat = loss :=
    entryBytes_toNat (by
      have := (m.world.tableAt r.table).counters.bytes.toNat_lt
      omega)
  have hexact := tracker_of_run h hf
  have hfit : m.TrackerFits := throughout_induction (fun _ _ _ _ hp _ => hp) hf.head hf h
  constructor
  case counter =>
    rintro rfl
    rw [hgain, hloss]
    exact ⟨hcounter, hroom.counter⟩
  case items =>
    intro ht hu
    have hle := itemsDue_le (p := m.world.isTracked) hdue
    rw [itemsDue_add, itemsDue_singleton, if_pos hu] at hle
    have hitems := hexact.items
    exact ⟨by omega, hroom.items ht⟩
  case bytes =>
    intro ht hu
    have hle := hbrought m.world.isTracked hu
    have hbytes := hexact.bytes
    rw [hgain, hloss]
    exact ⟨by omega, hroom.bytes ht⟩
  case signed =>
    intro ht hu
    have hmem : (⟨r.table, r.key, v⟩ : Reclamation) ∈ dues m.interned :=
      hm.installed.due v r.table r.key hreg
    rw [hgain, hloss]
    exact ⟨hfit.each _ hmem hu, hroom.signed ht⟩

/-- In every state that threads reach, a handle used up by an interner is one kept and dropped. -/
theorem used_up_as_kept (h : run steps {} = some m) (n : Interner)
    (hn : ∀ t, n.strategy = .table t → .owner t ∈ m.hand) (hv : .handle v ∈ m.hand)
    (hb : ∀ r, m.world.registration v = some r →
      Throughout (fun m => m.outstandingBytes r.table < 2 ^ 64) steps {})
    (hf : Throughout TrackerFits steps {})
    (hroom : ∀ t, n.strategy = .table t → m.world.HasRoom t
      ((n.normalizer.key (m.world.text v)).utf8ByteSize + (m.world.text v).utf8ByteSize)) :
    n.UsedUpAsKept v m.world := by
  have hm := sound_of_run h
  have hlive := hm.accounted.isLive hv List.mem_cons_self
  cases hs : n.strategy with
  | passthrough =>
    have hused : n.intern (.handle v) m.world = (v, m.world) := by
      rw [Interner.intern, hs]
      rfl
    have hkept : n.internKept v m.world = (v, m.world) := by
      rw [Interner.internKept, Interner.intern, hs]
      show (v, (m.world.addHandle v).drop v) = _
      rw [World.drop_addHandle hlive]
    refine ⟨by rw [hkept, hused], .of_eq (by rw [hkept, hused]), ?_⟩
    rintro t ht
    cases hs.symm.trans ht
  | table t =>
    have hown := hm.accounted.isOwned (hn t hs) List.mem_cons_self
    refine Interner.usedUpAsKept_of_table hs hlive hown fun r hr => ?_
    exact swaps_of_run h hv hr (hb r (World.told_eq_some_iff.1 hr).2.1) hf (hroom t hs)

/-- The last handle to an instance is interned where it is registered, under another key: a copy is
stored, and the entry of the instance goes. -/
theorem used_up_as_kept_copied :
    let double : Normalizer := .ofFunction fun s => s ++ s
    ∃ m, run (churn.take 5) {} = some m ∧ m.world.told 0 = some ⟨0, "a"⟩ ∧
      (m.world.intern 0 double (.handle 0)).1 = .stored 1 false (some 0) ∧
      Interner.UsedUpAsKept ⟨.table 0, double⟩ 0 m.world := by
  intro double
  let m := (run (churn.take 5) {}).get (by decide +kernel)
  have h : run (churn.take 5) {} = some m := (Option.some_get _).symm
  have hreg : m.world.registration 0 = some ⟨0, "a"⟩ := by decide +kernel
  refine ⟨m, h, by decide +kernel, by decide +kernel,
    used_up_as_kept h ⟨.table 0, double⟩ ?_ (by decide +kernel) ?_ (by decide +kernel) ?_⟩
  · rintro t ⟨⟩
    decide +kernel
  · intro r hr
    obtain rfl := Option.some.inj (hreg.symm.trans hr)
    decide +kernel
  · rintro t ⟨⟩
    exact ⟨by decide +kernel, by decide +kernel, by decide +kernel, by decide +kernel⟩

end Machine

end Interning
