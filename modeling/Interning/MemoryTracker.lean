/-!
# The memory tracker

Two counters of 64 bits, the number of items and the number of bytes, that stop at their ends
instead of wrapping round.

    (addSaturating a b).toNat = min (a.toNat + b.toNat) maxWord      (toNat_addSaturating)
    (subSaturating a b).toNat = a.toNat - b.toNat                         (toNat_subSaturating)
-/

namespace Interning

/-! ## Algorithm -/

def maxWord : Nat := 18446744073709551615

/-- The sum, or the greatest word where it does not fit. -/
def addSaturating (a b : UInt64) : UInt64 := if a + b < a then -1 else a + b

/-- The difference, or zero where it would be negative. -/
def subSaturating (a b : UInt64) : UInt64 := if a < b then 0 else a - b

/-- The counter after a signed change. -/
def applyDelta (current : UInt64) (delta : Int64) : UInt64 :=
  if 0 ≤ delta then addSaturating current delta.toUInt64
  else subSaturating current (-delta).toUInt64

/-- What the bytes of the account belong to. -/
inductive MemoryCategory
  /-- Keys and texts of tables. -/
  | canonicalTable
  deriving DecidableEq, Repr

/-- The items and bytes accounted for. -/
structure MemoryTracker where
  items : UInt64 := 0
  bytes : UInt64 := 0
  deriving DecidableEq, Repr, Inhabited

namespace MemoryTracker

/-- Changes both counters, each by its own delta. -/
def record (m : MemoryTracker) (items bytes : Int64) : MemoryTracker :=
  ⟨applyDelta m.items items, applyDelta m.bytes bytes⟩

/-- The trackers before the first change and after each one. -/
def history (m : MemoryTracker) : List (Int64 × Int64) → List MemoryTracker
  | [] => [m]
  | d :: ds => m :: (m.record d.1 d.2).history ds

end MemoryTracker

/-! ## Lemmas -/

theorem toNat_addSaturating (a b : UInt64) :
    (addSaturating a b).toNat = min (a.toNat + b.toNat) maxWord := by
  have ha := a.toNat_lt
  have hb := b.toNat_lt
  have hs := UInt64.toNat_add a b
  have hm : maxWord = 18446744073709551615 := rfl
  rw [addSaturating]
  split
  · next h =>
    rw [UInt64.lt_iff_toNat_lt, hs] at h
    have : (-1 : UInt64).toNat = maxWord := by decide
    omega
  · next h =>
    rw [UInt64.lt_iff_toNat_lt, hs] at h
    omega

theorem toNat_subSaturating (a b : UInt64) :
    (subSaturating a b).toNat = a.toNat - b.toNat := by
  rw [subSaturating]
  split
  · next h =>
    rw [UInt64.lt_iff_toNat_lt] at h
    show 0 = _
    omega
  · next h => exact UInt64.toNat_sub_of_le a b (UInt64.not_lt.1 h)

end Interning
