import Interning.Counters
import Interning.Proofs.MemoryTracker
import Mathlib.Algebra.Order.Ring.Int
import Mathlib.Data.List.Infix
import Mathlib.Data.List.Induction

/-!
# What a counter shows that stops at zero

A counter that is cut off at zero shows more than the true sum of what was added and taken, by as
much as the sum ever was below zero.  The tracker of the process and the bytes of a table are such
counters; they differ in what happens at the upper end.

    lowest delta (es ++ [e]) = min (lowest delta es) (total delta (es ++ [e]))     (lowest_concat)
    a ≤ lowest delta es ↔ no sum on the way is below a                             (le_lowest_iff)
    the value is total delta es - lowest delta es                              (Saturates.of_step)
    (t.of (after {} es)).toNat = es.countP t.counts                               (toNat_of_after)
-/

namespace Interning

/-! ## Algorithm -/

section

variable {ε : Type} (delta : ε → Int)

def total (es : List ε) : Int := (es.map delta).sum

/-- The least of zero and the sums of the changes up to each of them. -/
def lowest (es : List ε) : Int := (es.inits.map (total delta)).foldl min 0

variable (value : List ε → UInt64)

/-- No change leads above the greatest word. -/
def Fits (es : List ε) : Prop :=
  ∀ before e, before ++ [e] <+: es → (value before).toNat + delta e ≤ 2 ^ 64 - 1

instance [DecidableEq ε] (es : List ε) : Decidable (Fits delta value es) :=
  decidable_of_iff (∀ before ∈ es.inits, ∀ e ∈ es, before ++ [e] <+: es →
    (value before).toNat + delta e ≤ 2 ^ 64 - 1)
    ⟨fun h before e hp => h before ((List.mem_inits ..).2 ((List.prefix_append ..).trans hp)) e
      (hp.subset (by simp)) hp, fun h before _ e _ => h before e⟩

/-- The value of a counter after some changes is cut off at both ends at each of them. -/
structure Saturates (es : List ε) : Prop where
  /-- Each change is added exactly, and the sum is cut off at zero and at the greatest word. -/
  step : ∀ before e, before ++ [e] <+: es → ((value (before ++ [e])).toNat : Int) =
    max 0 (min ((value before).toNat + delta e) (2 ^ 64 - 1))
  /-- Where nothing is cut off above, the value exceeds the sum by what the sum was below zero. -/
  closed : Fits delta value es → ((value es).toNat : Int) = total delta es - lowest delta es
  /-- So it is the sum exactly if the sum was never below zero. -/
  true_iff : Fits delta value es →
    (((value es).toNat : Int) = total delta es ↔ ∀ before, before <+: es → 0 ≤ total delta before)
  /-- It is never less than the sum. -/
  total_le : Fits delta value es → total delta es ≤ (value es).toNat

end

namespace MemoryTracker

/-- The counters of a tracker. -/
inductive Lane
  | items
  | bytes

def Lane.of (m : MemoryTracker) : Lane → UInt64
  | items => m.items
  | bytes => m.bytes

/-- The change that a record makes in a lane. -/
def Lane.delta : Lane → Int64 × Int64 → Int
  | items, d => d.1.toInt
  | bytes, d => d.2.toInt

def after (m : MemoryTracker) (ds : List (Int64 × Int64)) : MemoryTracker :=
  ds.foldl (fun m d => m.record d.1 d.2) m

end MemoryTracker

namespace Counters

def after (c : Counters) (es : List Entry) : Counters := es.foldl record c

namespace Entry

def added : Entry → Nat
  | hit | reclaim _ _ => 0
  | miss _ bytes => bytes.toNat

/-- The bytes that are added or taken. -/
def gain : Entry → Int
  | hit => 0
  | miss _ bytes => bytes.toNat
  | reclaim _ bytes => -bytes.toNat

end Entry

/-- The counters that count events. -/
inductive Tally
  | calls
  | hits
  | misses
  | staleReplacements
  | reclaimed
  | staleCallbacks

def Tally.of (c : Counters) : Tally → UInt64
  | calls => c.calls
  | hits => c.hits
  | misses => c.misses
  | staleReplacements => c.staleReplacements
  | reclaimed => c.reclaimed
  | staleCallbacks => c.staleCallbacks

/-- The events that a counter counts. -/
def Tally.counts : Tally → Entry → Bool
  | calls, .hit | calls, .miss _ _ => true
  | hits, .hit => true
  | misses, .miss _ _ => true
  | staleReplacements, .miss stale _ => stale
  | reclaimed, .reclaim _ _ => true
  | staleCallbacks, .reclaim removed _ => !removed
  | _, _ => false

/-- The counters are the numbers of the events. -/
structure Counts (es : List Entry) (c : Counters) : Prop where
  tallied : ∀ t : Tally, (t.of c).toNat = es.countP t.counts
  calls : c.calls.toNat = c.hits.toNat + c.misses.toNat
  staleReplacements : c.staleReplacements ≤ c.misses
  staleCallbacks : c.staleCallbacks ≤ c.reclaimed

end Counters

/-! ## Lemmas -/

section

variable {ε : Type} {delta : ε → Int} {value : List ε → UInt64} {es : List ε}

/-! ### Sums -/

theorem total_concat (delta : ε → Int) (es : List ε) (e : ε) :
    total delta (es ++ [e]) = total delta es + delta e := by
  rw [total, List.map_append, List.sum_append]
  exact congrArg _ List.sum_singleton

theorem lowest_concat (delta : ε → Int) (es : List ε) (e : ε) :
    lowest delta (es ++ [e]) = min (lowest delta es) (total delta (es ++ [e])) := by
  rw [lowest, List.inits_append, List.map_append, List.foldl_append]
  rfl

theorem le_lowest_iff {a : Int} :
    a ≤ lowest delta es ↔ ∀ before, before <+: es → a ≤ total delta before := by
  induction es using List.reverseRecOn with
  | nil =>
    simp only [List.prefix_nil, forall_eq]
    exact Iff.rfl
  | append_singleton es e ih =>
    rw [lowest_concat, Int.le_min, ih]
    simp only [List.prefix_concat_iff, forall_eq_or_imp]
    exact and_comm

theorem lowest_nonpos (delta : ε → Int) (es : List ε) : lowest delta es ≤ 0 :=
  le_lowest_iff.1 (Int.le_refl _) [] List.nil_prefix

/-! ### Counters that are cut off -/

theorem Fits.of_prefix {before : List ε} (h : Fits delta value es) (hp : before <+: es) :
    Fits delta value before :=
  fun b e hb => h b e (hb.trans hp)

/-- A value that is cut off at each change exceeds the sum by what the sum was below zero. -/
theorem value_eq_of_step (h : value [] = 0)
    (hstep : ∀ before e, before ++ [e] <+: es → ((value (before ++ [e])).toNat : Int) =
      max 0 (min ((value before).toNat + delta e) (2 ^ 64 - 1)))
    (hfits : Fits delta value es) :
    ((value es).toNat : Int) = total delta es - lowest delta es := by
  induction es using List.reverseRecOn with
  | nil =>
    rw [h]
    rfl
  | append_singleton es e ih =>
    have hp := List.prefix_append es [e]
    have hbefore := ih (fun b e hb => hstep b e (hb.trans hp)) (hfits.of_prefix hp)
    have hlast := hstep es e (List.prefix_refl _)
    have hfit := hfits es e (List.prefix_refl _)
    rw [lowest_concat, total_concat]
    omega

theorem Saturates.of_step (h : value [] = 0)
    (hstep : ∀ before e, before ++ [e] <+: es → ((value (before ++ [e])).toNat : Int) =
      max 0 (min ((value before).toNat + delta e) (2 ^ 64 - 1))) : Saturates delta value es where
  step := hstep
  closed := value_eq_of_step h hstep
  true_iff hfits := by
    have hvalue := value_eq_of_step h hstep hfits
    have hlow := lowest_nonpos delta es
    rw [← le_lowest_iff]
    omega
  total_le hfits := by
    have hvalue := value_eq_of_step h hstep hfits
    have hlow := lowest_nonpos delta es
    omega

end

/-! ### The tracker -/

namespace MemoryTracker

theorem after_concat (m : MemoryTracker) (ds : List (Int64 × Int64)) (d : Int64 × Int64) :
    m.after (ds ++ [d]) = (m.after ds).record d.1 d.2 := List.foldl_concat ..

/-- A record changes each lane by its own delta and cuts it off at both ends. -/
theorem toNat_of_record (l : Lane) (m : MemoryTracker) (d : Int64 × Int64) :
    ((l.of (m.record d.1 d.2)).toNat : Int) =
      max 0 (min ((l.of m).toNat + l.delta d) (2 ^ 64 - 1)) := by
  cases l with
  | items => exact toNat_applyDelta m.items d.1
  | bytes => exact toNat_applyDelta m.bytes d.2

theorem saturates (l : Lane) (ds : List (Int64 × Int64)) :
    Saturates l.delta (fun ds => l.of (after {} ds)) ds := by
  refine .of_step (by cases l <;> rfl) fun before d _ => ?_
  show ((l.of (after {} (before ++ [d]))).toNat : Int) = _
  rw [after_concat]
  exact toNat_of_record l _ d

end MemoryTracker

/-! ### The counters of a table -/

namespace Counters

variable {es : List Entry}

theorem after_concat (c : Counters) (es : List Entry) (e : Entry) :
    c.after (es ++ [e]) = (c.after es).record e := List.foldl_concat ..

/-- A change that fits is added exactly, and the sum is cut off below zero. -/
theorem toNat_bytes_record {c : Counters} {e : Entry}
    (h : c.bytes.toNat + e.gain ≤ 2 ^ 64 - 1) :
    ((c.record e).bytes.toNat : Int) = max 0 (min (c.bytes.toNat + e.gain) (2 ^ 64 - 1)) := by
  have hc := c.bytes.toNat_lt
  cases e with
  | hit =>
    have hg : Entry.hit.gain = 0 := rfl
    have hr : (c.record .hit).bytes = c.bytes := rfl
    rw [hg, hr]
    omega
  | miss stale bytes =>
    have hg : (Entry.miss stale bytes).gain = bytes.toNat := rfl
    rw [hg] at h ⊢
    have hsum : (c.bytes + bytes).toNat = c.bytes.toNat + bytes.toNat := by
      rw [UInt64.toNat_add]
      exact Nat.mod_eq_of_lt (by omega)
    show ((c.bytes + bytes).toNat : Int) = _
    omega
  | reclaim removed bytes =>
    have hg : (Entry.reclaim removed bytes).gain = -bytes.toNat := rfl
    rw [hg] at h ⊢
    show ((subSaturating c.bytes bytes).toNat : Int) = _
    rw [toNat_subSaturating]
    omega

theorem saturates (h : Fits Entry.gain (fun es => (after {} es).bytes) es) :
    Saturates Entry.gain (fun es => (after {} es).bytes) es := by
  refine .of_step rfl fun before e hp => ?_
  show ((after {} (before ++ [e])).bytes.toNat : Int) = _
  rw [after_concat]
  exact toNat_bytes_record (h before e hp)

/-- There are never more bytes than were added. -/
theorem bytes_le_added (es : List Entry) :
    (after {} es).bytes.toNat ≤ (es.map Entry.added).sum := by
  induction es using List.reverseRecOn with
  | nil => exact Nat.le_refl 0
  | append_singleton es e ih =>
    rw [after_concat, List.map_append, List.sum_append]
    have hrecord : ((after {} es).record e).bytes.toNat ≤
        (after {} es).bytes.toNat + e.added := by
      cases e with
      | hit => exact Nat.le_refl _
      | miss stale bytes => exact (UInt64.toNat_add ..).trans_le (Nat.mod_le ..)
      | reclaim removed bytes => exact (toNat_subSaturating ..).trans_le (Nat.sub_le ..)
    exact hrecord.trans (Nat.add_le_add ih (List.sum_singleton).ge)

/-- Bytes fit that do so all together. -/
theorem fits_of_added_lt (h : (es.map Entry.added).sum < 2 ^ 64) :
    Fits Entry.gain (fun es => (after {} es).bytes) es := by
  rintro before e ⟨rest, rfl⟩
  have hbefore := bytes_le_added before
  have hgain : e.gain ≤ e.added := by
    cases e with
    | hit => exact Int.le_refl 0
    | miss stale bytes => exact Int.le_refl _
    | reclaim removed bytes => exact Int.neg_nonpos_of_nonneg (Int.natCast_nonneg _)
  simp only [List.map_append, List.sum_append, List.map_cons, List.map_nil, List.sum_cons,
    List.sum_nil] at h
  show ((after {} before).bytes.toNat : Int) + e.gain ≤ 2 ^ 64 - 1
  omega

/-- One event adds one to the counters that count it. -/
theorem of_record (t : Tally) (c : Counters) (e : Entry) :
    t.of (c.record e) = t.of c + if t.counts e then 1 else 0 := by
  cases t <;> rcases e with _ | ⟨_ | _, b⟩ | ⟨_ | _, b⟩ <;>
    first | rfl | exact (UInt64.add_zero _).symm

/-- A counter of events is their number, as long as a word holds it. -/
theorem toNat_of_after (t : Tally) (h : es.length < 2 ^ 64) :
    (t.of (after {} es)).toNat = es.countP t.counts := by
  induction es using List.reverseRecOn with
  | nil => cases t <;> rfl
  | append_singleton es e ih =>
    rw [List.length_append, List.length_singleton] at h
    have hcount := List.countP_le_length (p := t.counts) (l := es)
    rw [after_concat, of_record, UInt64.toNat_add, ih (by omega), List.countP_append,
      List.countP_singleton]
    cases t.counts e with
    | true => exact Nat.mod_eq_of_lt (by show _ + 1 < _; omega)
    | false => exact Nat.mod_eq_of_lt (by show _ + 0 < _; omega)

/-- Every call is a hit or a miss. -/
theorem countP_calls (es : List Entry) :
    es.countP Tally.calls.counts = es.countP Tally.hits.counts + es.countP Tally.misses.counts := by
  induction es with
  | nil => rfl
  | cons e es ih =>
    simp only [List.countP_cons, ih]
    cases e <;> simp [Tally.counts] <;> omega

theorem counts (h : es.length < 2 ^ 64) : Counts es (after {} es) := by
  have htally := fun t => toNat_of_after t h
  refine ⟨htally, ?_, ?_, ?_⟩
  · exact (htally .calls).trans ((countP_calls es).trans
      (congrArg₂ _ (htally .hits) (htally .misses)).symm)
  · refine UInt64.le_iff_toNat_le.2 ?_
    refine ((htally .staleReplacements).trans_le ?_).trans (htally .misses).ge
    exact List.countP_mono_left fun e _ he => by cases e <;> first | rfl | cases he
  · refine UInt64.le_iff_toNat_le.2 ?_
    refine ((htally .staleCallbacks).trans_le ?_).trans (htally .reclaimed).ge
    exact List.countP_mono_left fun e _ he => by cases e <;> first | rfl | cases he

end Counters

/-! ### Main statement -/

/-- The tracker and the bytes of a table follow one law, and the other counters count. -/
theorem saturating_accounting :
    (∀ (l : MemoryTracker.Lane) (ds : List (Int64 × Int64)),
      Saturates l.delta (fun ds => l.of (MemoryTracker.after {} ds)) ds) ∧
    (∀ es : List Counters.Entry,
      Fits Counters.Entry.gain (fun es => (Counters.after {} es).bytes) es →
        Saturates Counters.Entry.gain (fun es => (Counters.after {} es).bytes) es) ∧
    (∀ es : List Counters.Entry, (es.map Counters.Entry.added).sum < 2 ^ 64 →
      Fits Counters.Entry.gain (fun es => (Counters.after {} es).bytes) es) ∧
    ∀ es : List Counters.Entry, es.length < 2 ^ 64 → Counters.Counts es (Counters.after {} es) :=
  ⟨MemoryTracker.saturates, fun _ => Counters.saturates, fun _ => Counters.fits_of_added_lt,
    fun _ => Counters.counts⟩

/-- The least delta takes all bytes away and the greatest one is added to none; and a table gives
back more bytes than it has, between two misses. -/
theorem saturating_accounting_extreme :
    let ds : List (Int64 × Int64) :=
      [(1, 10), (-3, Int64.minValue), (2, Int64.maxValue), (Int64.maxValue, 7)]
    let es : List Counters.Entry :=
      [.miss false 10, .hit, .hit, .miss true 4, .reclaim false 20, .miss false 7]
    let m := MemoryTracker.after {} ds
    let c := Counters.after {} es
    ((m.bytes.toNat : Int) = total MemoryTracker.Lane.bytes.delta ds -
        lowest MemoryTracker.Lane.bytes.delta ds ∧
      total MemoryTracker.Lane.bytes.delta ds = 16 ∧
      lowest MemoryTracker.Lane.bytes.delta ds = 10 - 2 ^ 63) ∧
    ((m.items.toNat : Int) = total MemoryTracker.Lane.items.delta ds -
        lowest MemoryTracker.Lane.items.delta ds ∧
      lowest MemoryTracker.Lane.items.delta ds = -2) ∧
    ((c.bytes.toNat : Int) = total Counters.Entry.gain es - lowest Counters.Entry.gain es ∧
      total Counters.Entry.gain es = 1 ∧ lowest Counters.Entry.gain es = -6) ∧
    Counters.Counts es c ∧ c.staleReplacements = 1 := by
  intro ds es m c
  obtain ⟨htracker, hbytes, hfits, hcounts⟩ := saturating_accounting
  have hes := hfits es (by decide +kernel)
  exact ⟨⟨(htracker .bytes ds).closed (by decide +kernel), by decide +kernel, by decide +kernel⟩,
    ⟨(htracker .items ds).closed (by decide +kernel), by decide +kernel⟩,
    ⟨(hbytes es hes).closed hes, by decide +kernel, by decide +kernel⟩,
    hcounts es (by decide), by decide +kernel⟩

end Interning
