import Interning.MemoryTracker
import Mathlib.Algebra.Group.Nat.Defs

/-!
# Signed changes of a word that stops at its ends

    applyDelta c d is the exact sum, cut off below zero and above the greatest word
                                                                       (toNat_applyDelta)
    a change by a word below 2^63, read as a signed one, adds or takes that word
                                                            (toNat_gain, toNat_loss)
-/

namespace Interning

/-! ## Lemmas -/

theorem toInt_toInt64 {b : UInt64} (h : b.toNat < 2 ^ 63) : b.toInt64.toInt = b.toNat := by
  show b.toBitVec.toInt = _
  rw [BitVec.toInt_eq_toNat_of_lt (by show 2 * b.toNat < 2 ^ 64; omega)]
  rfl

theorem toInt_neg_toInt64 {b : UInt64} (h : b.toNat < 2 ^ 63) :
    (-b.toInt64).toInt = -b.toNat := by
  rw [Int64.toInt_neg, toInt_toInt64 h]
  exact Int.bmod_eq_of_le (by omega) (by omega)

/-- The unsigned word of a change that is not negative. -/
theorem toNat_of_nonneg {d : Int64} (h : 0 ≤ d) : (d.toUInt64.toNat : Int) = d.toInt := by
  have h : 0 ≤ d.toInt := Int64.le_iff_toInt_le.1 h
  have hd : d.toInt = d.toUInt64.toBitVec.toInt := rfl
  rw [hd] at h ⊢
  rw [BitVec.toInt_eq_toNat_cond] at h ⊢
  split at h
  · next hlt => rw [if_pos hlt]; rfl
  · next hge =>
    have hn : d.toUInt64.toBitVec.toNat < 2 ^ 64 := d.toUInt64.toBitVec.isLt
    omega

/-- The unsigned word that is taken for a change below zero. -/
theorem toNat_neg_of_neg {d : Int64} (h : ¬ 0 ≤ d) : ((-d).toUInt64.toNat : Int) = -d.toInt := by
  have h : d.toInt < 0 := Int.lt_of_not_ge fun hc => h (Int64.le_iff_toInt_le.2 hc)
  have hd : d.toInt = d.toUInt64.toBitVec.toInt := rfl
  have hn : (-d).toUInt64.toNat = (2 ^ 64 - d.toUInt64.toBitVec.toNat) % 2 ^ 64 := by
    rw [Int64.toUInt64_neg]
    exact BitVec.toNat_neg d.toUInt64.toBitVec
  have hlt : d.toUInt64.toBitVec.toNat < 2 ^ 64 := d.toUInt64.toBitVec.isLt
  rw [hd, BitVec.toInt_eq_toNat_cond] at h ⊢
  split at h
  · omega
  · next hge =>
    rw [if_neg hge, hn]
    omega

/-- A signed change is exact, except that it stops at zero and at the greatest word. -/
theorem toNat_applyDelta (c : UInt64) (d : Int64) :
    ((applyDelta c d).toNat : Int) = max 0 (min (c.toNat + d.toInt) maxWord) := by
  have hm : (maxWord : Int) = 18446744073709551615 := rfl
  have hc := c.toNat_lt
  unfold applyDelta
  split
  · next h =>
    have hd := toNat_of_nonneg h
    rw [toNat_addSaturating]
    omega
  · next h =>
    have hd := toNat_neg_of_neg h
    rw [toNat_subSaturating]
    omega

/-- What is gained is added as long as the sum fits. -/
theorem toNat_gain {c b : UInt64} (hb : b.toNat < 2 ^ 63) (h : c.toNat + b.toNat < 2 ^ 64) :
    (applyDelta c b.toInt64).toNat = c.toNat + b.toNat := by
  have ha := toNat_applyDelta c b.toInt64
  have hm : (maxWord : Int) = 18446744073709551615 := rfl
  rw [toInt_toInt64 hb] at ha
  omega

/-- What is lost is taken off as long as it is there. -/
theorem toNat_loss {c b : UInt64} (hb : b.toNat < 2 ^ 63) (h : b.toNat ≤ c.toNat) :
    (applyDelta c (-b.toInt64)).toNat + b.toNat = c.toNat := by
  have ha := toNat_applyDelta c (-b.toInt64)
  have hm : (maxWord : Int) = 18446744073709551615 := rfl
  have hc := c.toNat_lt
  rw [toInt_neg_toInt64 hb] at ha
  omega

/-- Of two losses either may come first, even where they are cut off at zero. -/
theorem applyDelta_loss_comm {b b' : UInt64} (hb : b.toNat < 2 ^ 63) (hb' : b'.toNat < 2 ^ 63)
    (c : UInt64) : applyDelta (applyDelta c (-b.toInt64)) (-b'.toInt64) =
      applyDelta (applyDelta c (-b'.toInt64)) (-b.toInt64) := by
  have h := toNat_applyDelta c (-b.toInt64)
  have h' := toNat_applyDelta c (-b'.toInt64)
  have hhb := toNat_applyDelta (applyDelta c (-b.toInt64)) (-b'.toInt64)
  have hhb' := toNat_applyDelta (applyDelta c (-b'.toInt64)) (-b.toInt64)
  have hc := c.toNat_lt
  have hm : (maxWord : Int) = 18446744073709551615 := rfl
  rw [toInt_neg_toInt64 hb] at h hhb'
  rw [toInt_neg_toInt64 hb'] at h' hhb
  refine UInt64.toNat_inj.1 ?_
  omega

theorem subSaturating_comm (a b b' : UInt64) :
    subSaturating (subSaturating a b) b' = subSaturating (subSaturating a b') b := by
  refine UInt64.toNat_inj.1 ?_
  simp only [toNat_subSaturating]
  exact Nat.sub_right_comm ..

namespace MemoryTracker

variable {m : MemoryTracker} {b : UInt64}

/-- An entry gained. -/
theorem toNat_record_gain (hb : b.toNat < 2 ^ 63) (hi : m.items.toNat + 1 < 2 ^ 64)
    (h : m.bytes.toNat + b.toNat < 2 ^ 64) :
    (m.record 1 b.toInt64).items.toNat = m.items.toNat + 1 ∧
      (m.record 1 b.toInt64).bytes.toNat = m.bytes.toNat + b.toNat :=
  ⟨toNat_gain (b := 1) (by decide) hi, toNat_gain hb h⟩

/-- An entry lost. -/
theorem toNat_record_loss (hb : b.toNat < 2 ^ 63) (hi : 1 ≤ m.items.toNat)
    (h : b.toNat ≤ m.bytes.toNat) :
    (m.record (-1) (-b.toInt64)).items.toNat + 1 = m.items.toNat ∧
      (m.record (-1) (-b.toInt64)).bytes.toNat + b.toNat = m.bytes.toNat :=
  ⟨toNat_loss (b := 1) (by decide) hi, toNat_loss hb h⟩

theorem record_loss_comm {b' : UInt64} (hb : b.toNat < 2 ^ 63) (hb' : b'.toNat < 2 ^ 63) :
    (m.record (-1) (-b.toInt64)).record (-1) (-b'.toInt64) =
      (m.record (-1) (-b'.toInt64)).record (-1) (-b.toInt64) := by
  simp only [record, applyDelta_loss_comm hb hb']

end MemoryTracker

end Interning
