import Mathlib.Algebra.Order.Ring.Rat
import Mathlib.Data.Nat.MaxPowDiv
import Mathlib.Tactic

/-!
# Decimals of any scale

A decimal is an integer and a scale, the number of its digits behind the point.  Normalizing strips
the trailing zeros of the integer, each of which lowers the scale by one.  Two decimals have the same
normal form exactly when they stand for the same number.
-/

namespace VectorStore

/-- A decimal: the number is `digits * 10 ^ (-scale)`. -/
@[ext] structure Scaled where
  digits : ℤ
  scale : ℤ
deriving DecidableEq

namespace Scaled

/-- The number of trailing zeros. -/
def zeros (d : Scaled) : ℕ := padicValNat 10 d.digits.natAbs

/-- The decimal without trailing zeros; every zero has the scale 0. -/
def normalized (d : Scaled) : Scaled :=
  if d.digits = 0 then ⟨0, 0⟩ else ⟨d.digits / 10 ^ d.zeros, d.scale - d.zeros⟩

/-- The number that a decimal stands for. -/
def value (d : Scaled) : ℚ := d.digits * (10 : ℚ) ^ (-d.scale)

/-- A decimal has no trailing zeros, and is not a zero of another scale than 0. -/
def IsNormal (d : Scaled) : Prop := d = ⟨0, 0⟩ ∨ ¬(10 : ℤ) ∣ d.digits

theorem value_eq_zero_iff {d : Scaled} : d.value = 0 ↔ d.digits = 0 := by
  have hpow : (10 : ℚ) ^ (-d.scale) ≠ 0 := zpow_ne_zero _ (by norm_num)
  rw [value, mul_eq_zero_iff_right hpow, Int.cast_eq_zero]

/-- The powers of ten that divide the digits. -/
theorem pow_dvd_iff {d : Scaled} (h : d.digits ≠ 0) {n : ℕ} :
    (10 : ℤ) ^ n ∣ d.digits ↔ n ≤ d.zeros := by
  have hcast : ((10 : ℤ) ^ n).natAbs = 10 ^ n := Int.natAbs_pow 10 n
  rw [← Int.natAbs_dvd_natAbs, hcast]
  exact Nat.pow_dvd_iff_le_padicValNat (by decide) (Int.natAbs_ne_zero.mpr h)

/-- The digits without their trailing zeros. -/
theorem digits_div (d : Scaled) (h : d.digits ≠ 0) :
    d.digits / 10 ^ d.zeros * 10 ^ d.zeros = d.digits ∧ ¬(10 : ℤ) ∣ d.digits / 10 ^ d.zeros := by
  have hmul := Int.ediv_mul_cancel ((pow_dvd_iff h).mpr le_rfl)
  refine ⟨hmul, fun hdvd => ?_⟩
  have hnext : (10 : ℤ) ^ (d.zeros + 1) ∣ d.digits := by
    rw [← hmul, pow_succ']
    exact mul_dvd_mul_right hdvd _
  exact absurd ((pow_dvd_iff h).mp hnext) (Nat.not_succ_le_self _)

/-- Normalizing keeps the number. -/
theorem value_normalized (d : Scaled) : d.normalized.value = d.value := by
  unfold normalized
  split
  · next hzero =>
    rw [value_eq_zero_iff.mpr hzero, value, Int.cast_zero, zero_mul]
  · next hne =>
    have hten : (10 : ℚ) ≠ 0 := by norm_num
    have hpow : (10 : ℚ) ^ (-(d.scale - d.zeros)) = (10 : ℚ) ^ d.zeros * (10 : ℚ) ^ (-d.scale) := by
      rw [← zpow_natCast, ← zpow_add₀ hten]
      congr 1
      ring
    have hdigits : ((d.digits / 10 ^ d.zeros : ℤ) : ℚ) * (10 : ℚ) ^ d.zeros = d.digits := by
      exact_mod_cast (d.digits_div hne).1
    rw [value, hpow, ← mul_assoc, hdigits, value]

theorem isNormal_normalized (d : Scaled) : d.normalized.IsNormal := by
  unfold normalized
  split
  · exact Or.inl rfl
  · next hne => exact Or.inr (d.digits_div hne).2

/-- Of two normal decimals for one number, none has the greater scale. -/
theorem IsNormal.scale_le {a b : Scaled} (ha : ¬(10 : ℤ) ∣ a.digits) (h : a.value = b.value) :
    a.scale ≤ b.scale := by
  by_contra hlt
  refine ha ?_
  have hten : (10 : ℚ) ≠ 0 := by norm_num
  have hshift : (a.digits : ℚ) = b.digits * 10 ^ (a.scale - b.scale).toNat := by
    have hexp : ((a.scale - b.scale).toNat : ℤ) = a.scale + -b.scale := by omega
    have hpow : (10 : ℚ) ^ (-a.scale) * (10 : ℚ) ^ a.scale = 1 := by
      rw [← zpow_add₀ hten, neg_add_cancel, zpow_zero]
    calc (a.digits : ℚ) = a.value * (10 : ℚ) ^ a.scale := by rw [value, mul_assoc, hpow, mul_one]
      _ = b.digits * ((10 : ℚ) ^ a.scale * (10 : ℚ) ^ (-b.scale)) := by rw [h, value]; ring
      _ = b.digits * 10 ^ (a.scale - b.scale).toNat := by
        rw [← zpow_add₀ hten, ← hexp, zpow_natCast]
  have hint : a.digits = b.digits * 10 ^ (a.scale - b.scale).toNat := by exact_mod_cast hshift
  rw [hint]
  exact Dvd.dvd.mul_left (dvd_pow_self 10 (by omega)) _

/-- Normal decimals for one number are the same. -/
theorem IsNormal.eq_of_value_eq {a b : Scaled} (ha : a.IsNormal) (hb : b.IsNormal)
    (h : a.value = b.value) : a = b := by
  rcases ha with rfl | ha
  · rcases hb with rfl | hb
    · rfl
    · have hzero : b.digits = 0 := value_eq_zero_iff.mp (h.symm.trans (value_eq_zero_iff.mpr rfl))
      exact absurd (hzero ▸ dvd_zero _) hb
  · rcases hb with rfl | hb
    · have hzero : a.digits = 0 := value_eq_zero_iff.mp (h.trans (value_eq_zero_iff.mpr rfl))
      exact absurd (hzero ▸ dvd_zero _) ha
    · have hscale : a.scale = b.scale := le_antisymm (scale_le ha h) (scale_le hb h.symm)
      have hpow : (10 : ℚ) ^ (-b.scale) ≠ 0 := zpow_ne_zero _ (by norm_num)
      have hdigits : a.digits = b.digits := by
        rw [value, value, hscale] at h
        exact_mod_cast mul_right_cancel₀ hpow h
      exact Scaled.ext hdigits hscale

/-- The normal forms are the same exactly for the same number. -/
theorem normalized_eq_iff {a b : Scaled} : a.normalized = b.normalized ↔ a.value = b.value := by
  constructor
  · intro h
    rw [← a.value_normalized, h, b.value_normalized]
  · intro h
    refine a.isNormal_normalized.eq_of_value_eq b.isNormal_normalized ?_
    rw [value_normalized, value_normalized, h]

/-- Normalizing a second time changes nothing. -/
theorem normalized_normalized (d : Scaled) : d.normalized.normalized = d.normalized :=
  normalized_eq_iff.mpr d.value_normalized

end Scaled

end VectorStore
