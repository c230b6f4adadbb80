import Interning.Proofs.Session
import Interning.Proofs.World.Exchange
import Mathlib.Algebra.Order.Sub.Basic
import Mathlib.Data.Multiset.OrderedMonoid

/-!
# Who owns what, and what is left

In a session every handle to an instance is one that the clients have, or is an entry of a retaining
table that is there; and a reclaiming table stores its instances as long as they have handles.  So
nothing leaks: what the clients give up is gone, in whatever order they give it up.

    handles = handles of the clients + entries of the retaining tables             (Shadow.counted)
    stored in a reclaiming table ↔ registered there, with a handle                  (Shadow.stored)
    the byte counter of a reclaiming table is the bytes of its entries            (Shadow.bytes_eq)
    what is given up in one order can be given up in any other, alike                    (run_perm)
    all of it for every session                                                         (leak_free)
-/

namespace Interning

/-! ## Algorithm -/

namespace Operation

/-- The operation gives up a handle, or an owner of something else than a reclaiming table. -/
def GivesUp (w : World) : Operation → Prop
  | drop _ => True
  | disown s => s.mode w ≠ .reclaiming
  | _ => False

instance (w : World) : (op : Operation) → Decidable (op.GivesUp w)
  | drop _ => inferInstanceAs (Decidable True)
  | disown s => inferInstanceAs (Decidable (s.mode w ≠ .reclaiming))
  | plain .. | configured .. | bare .. | share .. | value .. | clone .. | intern .. | lookup ..
  | find .. | ask .. => inferInstanceAs (Decidable False)

/-- The handle that an operation drops. -/
def dropped? : Operation → Option InstanceId
  | drop i => some i
  | _ => none

/-- The owner that an operation gives up. -/
def disowned? : Operation → Option Strategy
  | disown s => some s
  | _ => none

end Operation

namespace Session

/-- The retaining tables among the targets, each as often as it has owners. -/
def retaining (σ : Session) : Multiset Strategy :=
  σ.targets.filter fun s => s.mode σ.world = .retaining

/-- Two sessions are the same but for their journals. -/
structure Alike (σ σ' : Session) : Prop where
  world : σ.world.Alike σ'.world
  targets : σ'.targets = σ.targets
  handles : σ'.handles = σ.handles

/-- Each entry of a tracked table fits in a signed word, as all that is in memory does. -/
def EntriesSigned (σ : Session) : Prop :=
  ∀ t k i, σ.world.isTracked t = true → (σ.world.entries t).get? k = some i →
    k.utf8ByteSize + (σ.world.text i).utf8ByteSize < 2 ^ 63

/-- Every handle is accounted for, and nothing leaks. -/
structure LeakFree (ops : List Operation) (σ : Session) : Prop where
  /-- A handle is one of the clients', or it is an entry of a retaining table that is there. -/
  counted : ∀ i, σ.world.handles i =
    σ.handles.count i + ∑ t ∈ σ.world.retainers, (σ.world.entries t).values.count i
  /-- A reclaiming table that is there stores the instances registered with it that have handles. -/
  stored : ∀ t, σ.world.isOwned t = true → (σ.world.tableAt t).storage = .reclaiming → ∀ k i,
    (σ.world.entries t).get? k = some i ↔
      σ.world.registration i = some ⟨t, k⟩ ∧ 0 < σ.world.handles i
  /-- When the clients have dropped all their handles, a reclaiming table stores exactly those of
  its instances that a retaining table still holds. -/
  dropped : ∀ is : List InstanceId, (is : Multiset InstanceId) = σ.handles →
    ∃ σ', run (is.map .drop) σ = some σ' ∧ σ'.handles = 0 ∧ σ'.targets = σ.targets ∧
      (∀ u ∈ σ.world.retainers, σ'.world.tableAt u = σ.world.tableAt u) ∧
      ∀ t, σ.world.isOwned t = true → (σ.world.tableAt t).storage = .reclaiming → ∀ k i,
        (σ'.world.entries t).get? k = some i ↔ σ.world.registration i = some ⟨t, k⟩ ∧
          ∃ u ∈ σ.world.retainers, i ∈ (σ.world.entries u).values
  /-- When they have given up the retaining tables, too, in any order, the reclaiming tables are
  empty and have counted as much back as they counted. -/
  drained : ∀ l : List Operation,
    (l : Multiset Operation) = σ.handles.map .drop + σ.retaining.map .disown →
      ∃ σ', run l σ = some σ' ∧ σ'.handles = 0 ∧ σ'.targets = σ.targets - σ.retaining ∧
        ∀ t, σ.world.isOwned t = true → (σ.world.tableAt t).storage = .reclaiming →
          σ'.world.isOwned t = true ∧ σ'.world.entries t = ∅ ∧
          (σ'.world.tableAt t).counters.reclaimed = (σ'.world.tableAt t).counters.misses ∧
          (StoredFits ops t → (σ'.world.tableAt t).counters.bytes = 0)
  /-- Handles and retaining tables that are given up in one order can be given up in any other, with
  the same entries, counters and tracker at the end. -/
  exchanged : ∀ l l' σ', l.Perm l' → (∀ op ∈ l, op.GivesUp σ.world) → σ.EntriesSigned →
    run l σ = some σ' → ∃ σ'', run l' σ = some σ'' ∧ σ'.Alike σ''

instance (ops : List Operation) (t : TableId) : Decidable (StoredFits ops t) :=
  decidable_of_iff (∀ before ∈ ops.inits, ∀ σ ∈ run before {}, σ.world.storedBytes t < 2 ^ 64)
    ⟨fun h before σ hpre hrun => h before ((List.mem_inits ..).2 hpre) σ hrun,
      fun h before hpre σ hrun => h before σ ((List.mem_inits ..).1 hpre) hrun⟩

instance (σ : Session) : Decidable σ.EntriesSigned :=
  decidable_of_iff (∀ t < σ.world.tables.size, σ.world.isTracked t = true →
      ∀ e ∈ (σ.world.entries t).toList,
        e.1.utf8ByteSize + (σ.world.text e.2).utf8ByteSize < 2 ^ 63)
    ⟨fun h t k i ht he =>
      h t (World.lt_size_of_entry he) ht (k, i) (KeyMap.get?_eq_some_iff.1 he),
      fun h t _ ht e he => h t e.1 e.2 ht (KeyMap.get?_eq_some_iff.2 he)⟩

/-- Two interners share their instances with a retaining table that has two owners. -/
def sharedInstances : List Operation :=
  [.configured { mode := .reclaiming, trackMemory := true } ⟨false, true⟩ .asciiCaseFold,
    .bare { mode := .retaining } ⟨false, true⟩, .plain .reclaiming, .share (.table 1),
    .intern (.table 0) .asciiCaseFold (.text "A"), .intern (.table 0) .asciiCaseFold (.text "b"),
    .intern (.table 2) .verbatim (.text "c"), .clone 0,
    .intern (.table 1) .verbatim (.handle 0)]

/-- What their clients give up. -/
def sharedReleases : List Operation :=
  [.drop 0, .drop 0, .drop 1, .drop 2, .disown (.table 1), .disown (.table 1)]

end Session

/-! ## Lemmas -/

/-! ### Taking out of a multiset -/

section Multisets

variable {α : Type} [DecidableEq α] {s s' : Multiset α} {a b : α}

theorem mem_and_le_erase (h : a ::ₘ s ≤ s') : a ∈ s' ∧ s ≤ s'.erase a := by
  have hle := Multiset.erase_le_erase a h
  rw [Multiset.erase_cons_head] at hle
  exact ⟨Multiset.mem_of_le h (Multiset.mem_cons_self a s), hle⟩

theorem mem_erase_swap (ha : a ∈ s) (hb : b ∈ s.erase a) : b ∈ s ∧ a ∈ s.erase b := by
  refine ⟨Multiset.mem_of_mem_erase hb, ?_⟩
  by_cases hab : a = b
  · exact hab ▸ hb
  · exact (Multiset.mem_erase_of_ne hab).2 ha

end Multisets

/-! ### Tokens -/

section Tokens

variable (targets : Multiset Strategy) (handles : Multiset InstanceId)

theorem handlesIn_tokens (i : InstanceId) :
    handlesIn (tokens targets handles) i = handles.count i := by
  induction handles using Multiset.induction_on with
  | empty =>
    induction targets using Multiset.induction_on with
    | empty => rfl
    | cons s targets ih =>
      cases s with
      | passthrough => rw [tokens_cons_passthrough, ih]
      | table t =>
        rw [tokens_cons_table, handlesIn_add, ih]
        rfl
  | cons j handles ih =>
    rw [tokens_cons_handle, handlesIn_add, ih, handlesIn_cons, handlesIn_nil, count_handle,
      Multiset.count_cons]
    rfl

theorem ownersIn_tokens (t : TableId) :
    ownersIn (tokens targets handles) t = targets.count (.table t) := by
  induction targets using Multiset.induction_on with
  | empty =>
    induction handles using Multiset.induction_on with
    | empty => rfl
    | cons i handles ih =>
      rw [tokens_cons_handle, ownersIn_add, ih]
      rfl
  | cons s targets ih =>
    cases s with
    | passthrough =>
      have hne : Strategy.table t ≠ .passthrough := nofun
      rw [tokens_cons_passthrough, ih, Multiset.count_cons_of_ne hne]
    | table u =>
      rw [tokens_cons_table, ownersIn_add, ih, ownersIn_cons, ownersIn_nil, count_owner,
        Multiset.count_cons]
      simp only [Strategy.table.injEq]
      rfl

end Tokens

namespace Session

variable {σ σ' σ₁ : Session} {m : Machine} {op : Operation} {l : List Operation} {t : TableId}

/-! ### What a session stores -/

namespace Shadow

theorem counted (hm : σ.Shadow m) (i : InstanceId) : σ.world.handles i =
    σ.handles.count i + ∑ t ∈ σ.world.retainers, (σ.world.entries t).values.count i := by
  have h := hm.vacant.handles_eq hm.valid.sound.accounted i
  rw [hm.hand, handlesIn_tokens, hm.world] at h
  exact h

theorem stored (hm : σ.Shadow m) (ho : σ.world.isOwned t = true)
    (hs : (σ.world.tableAt t).storage = .reclaiming) (k : String) (i : InstanceId) :
    (σ.world.entries t).get? k = some i ↔
      σ.world.registration i = some ⟨t, k⟩ ∧ 0 < σ.world.handles i := by
  have hsound := hm.valid.sound
  have howed : ∀ r ∈ m.owed, r.table ≠ t := fun r hr => by
    rw [hm.prompt.owed] at hr
    exact absurd hr (Multiset.notMem_zero r)
  rw [← hm.world] at ho hs ⊢
  constructor
  · intro he
    exact ⟨hsound.registered.entry t k i hs he,
      World.isLive_iff.1 (hsound.entries_live ho hs howed he)⟩
  · rintro ⟨hr, hh⟩
    exact hsound.registered.stored i t k hr (World.isLive_iff.2 hh)

/-- The tables that are there are those among the targets. -/
theorem isOwned_iff (hm : σ.Shadow m) : σ.world.isOwned t = true ↔ .table t ∈ σ.targets := by
  have h := hm.valid.sound.accounted.owners t
  rw [hm.hand, ownersIn_tokens, hm.world] at h
  rw [World.isOwned_iff, h, Multiset.count_pos]

/-- Nothing on a table is in progress. -/
theorem quiescent (hm : σ.Shadow m) (t : TableId) : m.Quiescent t := by
  have hcall : ∀ x ∈ m.hand, x.call? = none := fun x hx =>
    call?_of_mem_tokens _ _ (hm.hand ▸ hx)
  constructor
  · intro p hp
    obtain ⟨x, hx, he⟩ := (Multiset.mem_filterMap _ _).1 hp
    have hn := hcall x hx
    cases x with
    | entered c o => cases hn
    | _ => cases he
  · intro p hp
    rw [hm.prompt.detached] at hp
    exact absurd hp (Multiset.notMem_zero p)

/-- The byte counter of a reclaiming table is the bytes of its entries. -/
theorem bytes_eq (hm : σ.Shadow m) (hb : m.BytesExact t) (ho : σ.world.isOwned t = true)
    (hs : (σ.world.tableAt t).storage = .reclaiming) :
    (σ.world.tableAt t).counters.bytes.toNat = σ.world.storedBytes t := by
  have hentered : m.entered = 0 := Multiset.eq_zero_of_forall_notMem fun p hp =>
    (hm.quiescent p.1.table).entered p hp rfl
  rw [← hm.world] at ho hs ⊢
  have hcalls := hm.valid.installed.calls
  rw [hentered, zero_add] at hcalls
  have hcounted : m.recordedBytes (· = t) = m.internedBytes (· = t) := by
    rw [Machine.recordedBytes, Machine.internedBytes, hcalls]
  have hexact := hb (.inr ⟨hs, ho⟩)
  rw [hcounted, hm.valid.internedBytes_eq hs,
    hm.prompt.outstandingBytes_eq hm.valid.sound ho hs] at hexact
  exact Nat.add_right_cancel hexact

/-- Where nothing has a handle, a reclaiming table is empty, and its counters say so. -/
theorem drained (hm : σ.Shadow m) (hn : ∀ i, σ.world.handles i = 0)
    (ho : σ.world.isOwned t = true) (hs : (σ.world.tableAt t).storage = .reclaiming) :
    σ.world.entries t = ∅ ∧
      (σ.world.tableAt t).counters.reclaimed = (σ.world.tableAt t).counters.misses ∧
      (m.BytesExact t → (σ.world.tableAt t).counters.bytes = 0) := by
  have hempty : σ.world.entries t = ∅ := by
    refine KeyMap.eq_empty_of_get? fun k => ?_
    cases he : (σ.world.entries t).get? k with
    | none => rfl
    | some i =>
      have hpos := ((hm.stored ho hs k i).1 he).2
      rw [hn i] at hpos
      exact absurd hpos (Nat.lt_irrefl 0)
  have hbytes : m.BytesExact t → (σ.world.tableAt t).counters.bytes = 0 := fun hb => by
    have h := hm.bytes_eq hb ho hs
    rw [World.storedBytes, hempty] at h
    exact UInt64.toNat_inj.1 h
  refine ⟨hempty, ?_, hbytes⟩
  have htallied := hm.tallied t
  have hreplaced : (m.replaced t).card = 0 := by
    rw [Machine.replaced, hm.prompt.owed]
    rfl
  rw [← hm.world] at ho hs hempty ⊢
  have hsize : m.world.size t = 0 := by
    rw [World.size, hempty]
    rfl
  have hhistory := (hm.valid.history ho hs (hm.quiescent t)).2.2
  rw [hsize, hreplaced, Nat.zero_add] at hhistory
  rw [htallied.reclaimed, htallied.misses, hhistory]

end Shadow

/-! ### Giving up -/

/-- Operations that intern nothing leave a session with a shadow, and its byte counters exact. -/
theorem Shadow.run (hm : σ.Shadow m) (hl : ∀ op ∈ l, op.isIntern = false)
    (h : run l σ = some σ') : σ'.Follows true m := by
  induction l generalizing σ m with
  | nil =>
    obtain rfl := Option.some.inj h
    exact hm.follows
  | cons op l ih =>
    obtain ⟨ha, h⟩ := run_cons_iff.1 h
    have hop := hm.perform (perform_eq_some_iff.2 ⟨ha, rfl⟩)
    rw [hl op List.mem_cons_self] at hop
    obtain ⟨m₁, hm₁, hb₁⟩ := hop
    obtain ⟨m₂, hm₂, hb₂⟩ := ih hm₁ (fun op hop => hl op (List.mem_cons_of_mem _ hop)) h
    exact ⟨m₂, hm₂, fun t hb _ => hb₂ t (hb₁ t hb nofun) nofun⟩

theorem isIntern_of_givesUp {w : World} (h : op.GivesUp w) : op.isIntern = false := by
  cases op with
  | intern => cases h
  | _ => rfl

/-- What the clients have, they can give up. -/
theorem exists_run {w : World} (hl : ∀ op ∈ l, op.GivesUp w)
    (hh : ↑(l.filterMap Operation.dropped?) ≤ σ.handles)
    (ht : ↑(l.filterMap Operation.disowned?) ≤ σ.targets) :
    ∃ σ', Session.run l σ = some σ' ∧
      σ'.handles = σ.handles - ↑(l.filterMap Operation.dropped?) ∧
      σ'.targets = σ.targets - ↑(l.filterMap Operation.disowned?) := by
  induction l generalizing σ with
  | nil => exact ⟨σ, rfl, (tsub_zero _).symm, (tsub_zero _).symm⟩
  | cons op l ih =>
    have hrest := fun op' hop => hl op' (List.mem_cons_of_mem op hop)
    cases op with
    | drop i =>
      have hh : i ::ₘ ↑(l.filterMap Operation.dropped?) ≤ σ.handles := hh
      obtain ⟨hi, hle⟩ := mem_and_le_erase hh
      have hle : _ ≤ ((Operation.drop i).effect σ).handles := hle
      obtain ⟨σ', hrun, hhandles, htargets⟩ := ih hrest hle ht
      exact ⟨σ', run_cons_iff.2 ⟨hi, hrun⟩, hhandles.trans (Multiset.sub_cons ..).symm, htargets⟩
    | disown s =>
      have ht : s ::ₘ ↑(l.filterMap Operation.disowned?) ≤ σ.targets := ht
      obtain ⟨hs, hle⟩ := mem_and_le_erase ht
      have hle : _ ≤ ((Operation.disown s).effect σ).targets := hle
      have hh : _ ≤ ((Operation.disown s).effect σ).handles := hh
      obtain ⟨σ', hrun, hhandles, htargets⟩ := ih hrest hh hle
      exact ⟨σ', run_cons_iff.2 ⟨hs, hrun⟩, hhandles, htargets.trans (Multiset.sub_cons ..).symm⟩
    | _ => exact absurd (hl _ List.mem_cons_self) id

/-! ### Giving up in another order -/

theorem storage_of_mode_ne {w : World} (h : (Strategy.table t).mode w ≠ .reclaiming) :
    (w.tableAt t).storage = .retaining := by
  cases hs : (w.tableAt t).storage with
  | retaining => rfl
  | reclaiming => exact absurd (congrArg Storage.mode hs) h

theorem storage_effect {w : World} (hop : op.GivesUp w) (t : TableId) :
    ((op.effect σ).world.tableAt t).storage = (σ.world.tableAt t).storage := by
  cases op with
  | drop i => exact World.storage_drop i t σ.world
  | disown s =>
    cases s with
    | passthrough => rfl
    | table u => exact World.storage_disown u t σ.world
  | _ => exact absurd hop id

theorem storage_run {w : World} (hl : ∀ op ∈ l, op.GivesUp w) (h : run l σ = some σ')
    (t : TableId) : (σ'.world.tableAt t).storage = (σ.world.tableAt t).storage := by
  induction l generalizing σ with
  | nil =>
    obtain rfl := Option.some.inj h
    rfl
  | cons op l ih =>
    exact (ih (fun x hx => hl x (List.mem_cons_of_mem op hx)) (run_cons_iff.1 h).2).trans
      (storage_effect (hl op List.mem_cons_self) t)

theorem mode_effect {w : World} (hop : op.GivesUp w) (s : Strategy) :
    s.mode (op.effect σ).world = s.mode σ.world := by
  cases s with
  | passthrough => rfl
  | table t => exact congrArg Storage.mode (storage_effect hop t)

theorem givesUp_effect {w : World} {op' : Operation} (hop : op.GivesUp w)
    (h : op'.GivesUp σ.world) : op'.GivesUp (op.effect σ).world := by
  cases op' with
  | disown s =>
    show s.mode _ ≠ _
    rw [mode_effect hop]
    exact h
  | _ => exact h

theorem orderly_effect {w : World} (hop : op.GivesUp w) (hw : σ.world.Orderly) :
    (op.effect σ).world.Orderly := by
  cases op with
  | drop i => exact hw.drop i
  | disown s =>
    cases s with
    | passthrough => exact hw
    | table t => exact hw.disown t
  | _ => exact absurd hop id

namespace Alike

theorem refl (σ : Session) : σ.Alike σ := ⟨.refl _, rfl, rfl⟩

theorem trans (h : σ.Alike σ') (h' : σ'.Alike σ₁) : σ.Alike σ₁ :=
  ⟨h.world.trans h'.world, h'.targets.trans h.targets, h'.handles.trans h.handles⟩

theorem effect {w : World} (h : σ.Alike σ') (hop : op.GivesUp w) :
    (op.effect σ).Alike (op.effect σ') := by
  cases op with
  | drop i => exact ⟨h.world.drop i, h.targets, congrArg (Multiset.erase · i) h.handles⟩
  | disown s =>
    refine ⟨?_, congrArg (Multiset.erase · s) h.targets, h.handles⟩
    cases s with
    | passthrough => exact h.world
    | table t => exact h.world.disown t
  | _ => exact absurd hop id

/-- What can be given up in one session can be given up in the other. -/
theorem run {w : World} (h : σ.Alike σ') (hl : ∀ op ∈ l, op.GivesUp w)
    (hrun : Session.run l σ = some σ₁) : ∃ σ₂, Session.run l σ' = some σ₂ ∧ σ₁.Alike σ₂ := by
  induction l generalizing σ σ' with
  | nil =>
    obtain rfl := Option.some.inj hrun
    exact ⟨σ', rfl, h⟩
  | cons op l ih =>
    have hop := hl op List.mem_cons_self
    obtain ⟨hallowed, hrun⟩ := run_cons_iff.1 hrun
    have hallowed' : op.Allowed σ' := by
      cases op with
      | drop i =>
        show i ∈ σ'.handles
        rw [h.handles]
        exact hallowed
      | disown s =>
        show s ∈ σ'.targets
        rw [h.targets]
        exact hallowed
      | _ => exact absurd hop id
    obtain ⟨σ₂, hrun', h'⟩ := ih (h.effect hop) (fun x hx => hl x (List.mem_cons_of_mem op hx)) hrun
    exact ⟨σ₂, run_cons_iff.2 ⟨hallowed', hrun'⟩, h'⟩

end Alike

/-- Of a handle and an owner of something else than a reclaiming table either may go first. -/
theorem disown_drop_alike {w : World} {s : Strategy} (hw : w.Orderly) (hs : s.mode w ≠ .reclaiming)
    (i : InstanceId) : (s.disown (w.drop i)).Alike ((s.disown w).drop i) := by
  cases s with
  | passthrough => exact .refl _
  | table t =>
    simp only [Strategy.disown]
    exact World.disown_drop_comm hw (storage_of_mode_ne hs) i

theorem disown_disown_alike {w : World} {s s' : Strategy} (hw : w.Orderly)
    (hs : s.mode w ≠ .reclaiming) (hs' : s'.mode w ≠ .reclaiming) :
    (s'.disown (s.disown w)).Alike (s.disown (s'.disown w)) := by
  cases s with
  | passthrough => exact .refl _
  | table t =>
    cases s' with
    | passthrough => exact .refl _
    | table u =>
      simp only [Strategy.disown]
      exact World.disown_comm hw (storage_of_mode_ne hs) (storage_of_mode_ne hs')

/-- Of two things that are given up either may come first. -/
theorem run_swap {op' : Operation} (hw : σ.world.Orderly) (hop : op.GivesUp σ.world)
    (hop' : op'.GivesUp σ.world) (ha : op.Allowed σ) (ha' : op'.Allowed (op.effect σ)) :
    op'.Allowed σ ∧ op.Allowed (op'.effect σ) ∧
      (op'.effect (op.effect σ)).Alike (op.effect (op'.effect σ)) := by
  cases op with
  | drop i =>
    cases op' with
    | drop j =>
      have ha : i ∈ σ.handles := ha
      have ha' : j ∈ σ.handles.erase i := ha'
      obtain ⟨hj, hi⟩ := mem_erase_swap ha ha'
      exact ⟨hj, hi, World.drop_comm hw i j, rfl, Multiset.erase_comm σ.handles j i⟩
    | disown s => exact ⟨ha', ha, disown_drop_alike hw hop' i, rfl, rfl⟩
    | _ => exact absurd hop' id
  | disown s =>
    cases op' with
    | drop i => exact ⟨ha', ha, (disown_drop_alike hw hop i).symm, rfl, rfl⟩
    | disown s' =>
      have ha : s ∈ σ.targets := ha
      have ha' : s' ∈ σ.targets.erase s := ha'
      obtain ⟨hs', hs⟩ := mem_erase_swap ha ha'
      exact ⟨hs', hs, disown_disown_alike hw hop hop', Multiset.erase_comm σ.targets s' s, rfl⟩
    | _ => exact absurd hop' id
  | _ => exact absurd hop id

/-- What is given up in one order can be given up in any other, with the same result. -/
theorem run_perm {l' : List Operation} (hp : l.Perm l') (hw : σ.world.Orderly)
    (hl : ∀ op ∈ l, op.GivesUp σ.world) (hrun : Session.run l σ = some σ₁) :
    ∃ σ₂, Session.run l' σ = some σ₂ ∧ σ₁.Alike σ₂ := by
  induction hp generalizing σ σ₁ with
  | nil => exact ⟨σ₁, hrun, .refl _⟩
  | cons op hp ih =>
    have hop := hl op List.mem_cons_self
    obtain ⟨ha, hrun⟩ := run_cons_iff.1 hrun
    obtain ⟨σ₂, hrun', h⟩ := ih (orderly_effect hop hw)
      (fun x hx => givesUp_effect hop (hl x (List.mem_cons_of_mem op hx))) hrun
    exact ⟨σ₂, run_cons_iff.2 ⟨ha, hrun'⟩, h⟩
  | swap op op' l =>
    have hop' := hl op' List.mem_cons_self
    have hop := hl op (List.mem_cons_of_mem op' List.mem_cons_self)
    obtain ⟨ha', hrun⟩ := run_cons_iff.1 hrun
    obtain ⟨ha, hrun⟩ := run_cons_iff.1 hrun
    obtain ⟨hb, hb', halike⟩ := run_swap hw hop' hop ha' ha
    have hrest : ∀ x ∈ l, x.GivesUp σ.world := fun x hx =>
      hl x (List.mem_cons_of_mem op' (List.mem_cons_of_mem op hx))
    obtain ⟨σ₂, hrun', h⟩ := halike.run hrest hrun
    exact ⟨σ₂, run_cons_iff.2 ⟨hb, run_cons_iff.2 ⟨hb', hrun'⟩⟩, h⟩
  | trans hp _ ih ih' =>
    obtain ⟨σ₂, hrun', h⟩ := ih hw hl hrun
    obtain ⟨σ₃, hrun'', h'⟩ := ih' hw (fun op hop => hl op (hp.mem_iff.2 hop)) hrun'
    exact ⟨σ₃, hrun'', h.trans h'⟩

/-- In a session only reclaiming tables register, and what the tracker is given back fits. -/
theorem Shadow.orderly (hm : σ.Shadow m) (hfit : σ.EntriesSigned) : σ.world.Orderly where
  reclaiming i r hr := by
    rw [← hm.world] at hr ⊢
    exact hm.valid.sound.registered.reclaiming i r hr
  signed i r hr hh ho ht := by
    have hs : (σ.world.tableAt r.table).storage = .reclaiming := by
      rw [← hm.world] at hr ⊢
      exact hm.valid.sound.registered.reclaiming i r hr
    have he := (hm.stored ho hs r.key i).2 ⟨hr, Nat.pos_of_ne_zero hh⟩
    have hlt := hfit r.table r.key i ht he
    rw [Machine.entryBytes_toNat (by omega)]
    exact hlt

/-! ### Nothing leaks -/

section Kinds

variable (handles : Multiset InstanceId) (targets : Multiset Strategy)

theorem filterMap_dropped :
    (handles.map Operation.drop + targets.map Operation.disown).filterMap Operation.dropped? =
      handles := by
  have hnone : (targets.map Operation.disown).filterMap Operation.dropped? = 0 := by
    refine Multiset.eq_zero_of_forall_notMem fun i hi => ?_
    obtain ⟨op, hop, he⟩ := (Multiset.mem_filterMap _ _).1 hi
    obtain ⟨s, -, rfl⟩ := Multiset.mem_map.1 hop
    cases he
  rw [Multiset.filterMap_add, hnone, add_zero, Multiset.filterMap_map]
  exact Multiset.filterMap_some handles

theorem filterMap_disowned :
    (handles.map Operation.drop + targets.map Operation.disown).filterMap Operation.disowned? =
      targets := by
  have hnone : (handles.map Operation.drop).filterMap Operation.disowned? = 0 := by
    refine Multiset.eq_zero_of_forall_notMem fun s hs => ?_
    obtain ⟨op, hop, he⟩ := (Multiset.mem_filterMap _ _).1 hs
    obtain ⟨i, -, rfl⟩ := Multiset.mem_map.1 hop
    cases he
  rw [Multiset.filterMap_add, hnone, zero_add, Multiset.filterMap_map]
  exact Multiset.filterMap_some targets

end Kinds

theorem givesUp_of_mem_drops {w : World} {is : List InstanceId} :
    ∀ op ∈ is.map Operation.drop, op.GivesUp w := by
  intro op hop
  obtain ⟨i, -, rfl⟩ := List.mem_map.1 hop
  exact trivial

theorem world_run_drops {is : List InstanceId} (h : run (is.map .drop) σ = some σ') :
    σ'.world = σ.world.dropAll is := by
  induction is generalizing σ with
  | nil =>
    obtain rfl := Option.some.inj h
    rfl
  | cons i is ih => exact ih (run_cons_iff.1 h).2

/-- After all handles of the clients are dropped. -/
theorem Shadow.dropped (hm : σ.Shadow m) {is : List InstanceId}
    (his : (is : Multiset InstanceId) = σ.handles) :
    ∃ σ', Session.run (is.map .drop) σ = some σ' ∧ σ'.handles = 0 ∧ σ'.targets = σ.targets ∧
      (∀ u ∈ σ.world.retainers, σ'.world.tableAt u = σ.world.tableAt u) ∧
      ∀ t, σ.world.isOwned t = true → (σ.world.tableAt t).storage = .reclaiming → ∀ k i,
        (σ'.world.entries t).get? k = some i ↔ σ.world.registration i = some ⟨t, k⟩ ∧
          ∃ u ∈ σ.world.retainers, i ∈ (σ.world.entries u).values := by
  have hgives : ∀ op ∈ is.map Operation.drop, op.GivesUp σ.world := givesUp_of_mem_drops
  have hdropped : (is.map Operation.drop).filterMap Operation.dropped? = is := by
    rw [List.filterMap_map]
    exact List.filterMap_some
  have hdisowned : (is.map Operation.drop).filterMap Operation.disowned? = [] := by
    rw [List.filterMap_map, List.filterMap_eq_nil_iff]
    exact fun _ _ => rfl
  obtain ⟨σ', hrun, hhandles, htargets⟩ := exists_run hgives
    (by rw [hdropped, his]) (by rw [hdisowned]; exact Multiset.zero_le _)
  rw [hdropped, his, tsub_self] at hhandles
  rw [hdisowned, Multiset.coe_nil, tsub_zero] at htargets
  have hworld := world_run_drops hrun
  obtain ⟨m', hm', -⟩ := hm.run (fun op hop => isIntern_of_givesUp (hgives op hop)) hrun
  refine ⟨σ', hrun, hhandles, htargets, fun u hu => ?_, fun t ho hs k i => ?_⟩
  · -- Only reclaiming tables are told.
    obtain ⟨ho, hs⟩ := World.mem_retainers.1 hu
    rw [hworld]
    refine World.tableAt_dropAll_of_untold fun i _ r hr hru => ?_
    subst hru
    rw [← hm.world] at hr hs
    cases hs.symm.trans (hm.valid.sound.registered.reclaiming i r hr)
  · have ho' : σ'.world.isOwned t = true := by rwa [hm'.isOwned_iff, htargets, ← hm.isOwned_iff]
    have hs' : (σ'.world.tableAt t).storage = .reclaiming := by
      rw [hworld, World.field_dropAll Table.storage fun _ _ _ _ => rfl, hs]
    have hleft : σ'.world.handles i =
        ∑ u ∈ σ.world.retainers, (σ.world.entries u).values.count i := by
      rw [hworld, World.handles_dropAll, hm.counted i, ← his, Multiset.coe_count,
        Nat.add_sub_cancel_left]
    rw [hm'.stored ho' hs' k i, hleft, hworld, World.registration_dropAll, Nat.pos_iff_ne_zero,
      ne_eq, Finset.sum_eq_zero_iff]
    simp only [List.count_eq_zero, not_forall, not_not, exists_prop]

/-- After the retaining tables are given up as well. -/
theorem Shadow.drained_of_perm (hm : σ.Shadow m)
    (hl : (l : Multiset Operation) = σ.handles.map .drop + σ.retaining.map .disown) :
    ∃ σ', Session.run l σ = some σ' ∧ σ'.handles = 0 ∧ σ'.targets = σ.targets - σ.retaining ∧
      ∀ t, σ.world.isOwned t = true → (σ.world.tableAt t).storage = .reclaiming →
        σ'.world.isOwned t = true ∧ σ'.world.entries t = ∅ ∧
        (σ'.world.tableAt t).counters.reclaimed = (σ'.world.tableAt t).counters.misses ∧
        (m.BytesExact t → (σ'.world.tableAt t).counters.bytes = 0) := by
  have hgives : ∀ op ∈ l, op.GivesUp σ.world := by
    intro op hop
    rw [← Multiset.mem_coe, hl, Multiset.mem_add, Multiset.mem_map, Multiset.mem_map] at hop
    rcases hop with ⟨i, -, rfl⟩ | ⟨s, hs, rfl⟩
    · exact trivial
    · show s.mode _ ≠ _
      rw [(Multiset.mem_filter.1 hs).2]
      exact nofun
  have hdropped : ((l.filterMap Operation.dropped? : List InstanceId) : Multiset InstanceId) =
      σ.handles := by
    rw [← Multiset.filterMap_coe, hl, filterMap_dropped]
  have hdisowned : ((l.filterMap Operation.disowned? : List Strategy) : Multiset Strategy) =
      σ.retaining := by
    rw [← Multiset.filterMap_coe, hl, filterMap_disowned]
  obtain ⟨σ', hrun, hhandles, htargets⟩ := exists_run hgives
    (by rw [hdropped]) (by rw [hdisowned]; exact Multiset.filter_le _ _)
  rw [hdropped, tsub_self] at hhandles
  rw [hdisowned] at htargets
  obtain ⟨m', hm', hb⟩ := hm.run (fun op hop => isIntern_of_givesUp (hgives op hop)) hrun
  have hstorage : ∀ t, (σ'.world.tableAt t).storage = (σ.world.tableAt t).storage :=
    storage_run hgives hrun
  have hleft : σ'.targets = σ.targets.filter fun s => ¬ s.mode σ.world = .retaining :=
    htargets.trans (Multiset.sub_filter_eq_filter_not ..)
  have hnone : ∀ i, σ'.world.handles i = 0 := by
    intro i
    rw [hm'.counted i, hhandles, Multiset.count_zero, Nat.zero_add]
    refine Finset.sum_eq_zero fun u hu => ?_
    obtain ⟨ho, hs⟩ := World.mem_retainers.1 hu
    rw [hm'.isOwned_iff, hleft, Multiset.mem_filter] at ho
    exact absurd (congrArg Storage.mode ((hstorage u).symm.trans hs)) ho.2
  refine ⟨σ', hrun, hhandles, htargets, fun t ho hs => ?_⟩
  have ho' : σ'.world.isOwned t = true := by
    rw [hm'.isOwned_iff, hleft, Multiset.mem_filter]
    refine ⟨hm.isOwned_iff.1 ho, ?_⟩
    show ¬(σ.world.tableAt t).storage.mode = .retaining
    rw [hs]
    exact nofun
  obtain ⟨hempty, hcounted, hbytes⟩ := hm'.drained hnone ho' ((hstorage t).trans hs)
  exact ⟨ho', hempty, hcounted, fun hexact => hbytes (hb t hexact nofun)⟩

/-- In every session each handle is accounted for and nothing leaks. -/
theorem leak_free (ops : List Operation) (σ : Session) (h : run ops {} = some σ) :
    σ.LeakFree ops := by
  obtain ⟨m, hm, hb⟩ := shadow_of_run h
  constructor
  case counted => exact hm.counted
  case stored => exact fun t ho hs k i => hm.stored ho hs k i
  case dropped => exact fun is his => hm.dropped his
  case drained =>
    intro l hl
    obtain ⟨σ', hrun, hhandles, htargets, hdrained⟩ := hm.drained_of_perm hl
    refine ⟨σ', hrun, hhandles, htargets, fun t ho hs => ?_⟩
    obtain ⟨ho', hempty, hcounted, hbytes⟩ := hdrained t ho hs
    exact ⟨ho', hempty, hcounted, fun hfit => hbytes (hb t hfit)⟩
  case exchanged =>
    exact fun l l' σ' hp hl hfit hrun => run_perm hp (hm.orderly hfit) hl hrun

/-- An instance has two clients and is in a retaining table; all are given up, in two orders. -/
theorem leak_free_shared :
    ∃ σ σ₁ σ₂, run sharedInstances {} = some σ ∧ σ.LeakFree sharedInstances ∧
      σ.world.handles 0 = 3 ∧ (σ.world.entries 0).get? "a" = some 0 ∧
      run sharedReleases σ = some σ₁ ∧ σ₁.world.entries 0 = ∅ ∧
      (σ₁.world.tableAt 0).counters.bytes = 0 ∧
      run sharedReleases.reverse σ = some σ₂ ∧ σ₁.Alike σ₂ := by
  let σ := (run sharedInstances {}).get (by decide +kernel)
  have h : run sharedInstances {} = some σ := (Option.some_get _).symm
  have hfree := leak_free sharedInstances σ h
  have hhandles : σ.handles = ↑[0, 0, 1, 2] := by decide +kernel
  have hretaining : σ.retaining = ↑[Strategy.table 1, .table 1] := by decide +kernel
  obtain ⟨σ₁, hrun, -, -, hdrained⟩ := hfree.drained sharedReleases (by
    rw [hhandles, hretaining]
    rfl)
  obtain ⟨-, hempty, -, hbytes⟩ := hdrained 0 (by decide +kernel) (by decide +kernel)
  obtain ⟨σ₂, hrun', halike⟩ := hfree.exchanged sharedReleases sharedReleases.reverse σ₁
    (List.reverse_perm _).symm (by decide +kernel) (by decide +kernel) hrun
  exact ⟨σ, σ₁, σ₂, h, hfree, by decide +kernel, by decide +kernel, hrun, hempty,
    hbytes (by decide +kernel), hrun', halike⟩

end Session

end Interning
