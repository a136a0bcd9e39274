import Mathlib

/-! Fixed-point scaling of a counter.

    A rational rate `r` is stored as the integer `⌊r · 2^k⌋`; a count `d` is scaled by multiplying
    with it and shifting `k` bits back. The result never exceeds `d · r`, falls short of it by less
    than `1 + d / 2^k`, and different counts stay different exactly when the stored rate is at least
    one. -/

namespace Scheme.FixedPoint

/-- The stored rate. -/
def multiplier (k : ℕ) (r : ℚ) : ℕ := ⌊r * 2 ^ k⌋₊

/-- The scaled count. -/
def scale (k m d : ℕ) : ℕ := (d * m) >>> k

theorem scale_eq_div (k m d : ℕ) : scale k m d = d * m / 2 ^ k := Nat.shiftRight_eq_div_pow _ _

/-- A stored rate of at least one keeps every step visible. -/
theorem scale_strict {k m d d' : ℕ} (hm : 2 ^ k ≤ m) (h : d < d') : scale k m d < scale k m d' := by
  rw [scale_eq_div, scale_eq_div]
  have hstep : d * m / 2 ^ k + 1 ≤ (d * m + m) / 2 ^ k := by
    rw [← Nat.add_div_right _ (Nat.two_pow_pos k)]
    exact Nat.div_le_div_right (by omega)
  have hle : d * m + m ≤ d' * m := by
    rw [← Nat.succ_mul]
    exact Nat.mul_le_mul_right m h
  exact lt_of_lt_of_le (Nat.lt_of_succ_le hstep) (Nat.div_le_div_right hle)

/-- A smaller one already loses the first step. -/
theorem scale_one_eq_zero {k m : ℕ} (hm : m < 2 ^ k) : scale k m 1 = 0 := by
  rw [scale_eq_div, Nat.one_mul, Nat.div_eq_of_lt hm]

/-- More counts are never scaled to less. -/
theorem scale_mono (k m : ℕ) {d d' : ℕ} (h : d ≤ d') : scale k m d ≤ scale k m d' := by
  rw [scale_eq_div, scale_eq_div]
  exact Nat.div_le_div_right (Nat.mul_le_mul_right m h)

/-- A rate that is a multiple of the resolution is stored exactly, and only the shift rounds. -/
theorem scale_exact {k m d : ℕ} {r : ℚ} (hr : r * 2 ^ k = m) :
    scale k (multiplier k r) d = ⌊(d : ℚ) * r⌋₊ := by
  have hprod : (d : ℚ) * r = ((d * m : ℕ) : ℚ) / ((2 ^ k : ℕ) : ℚ) := by
    push_cast
    rw [← hr]
    field_simp
  rw [multiplier, hr, Nat.floor_natCast, scale_eq_div, hprod, Nat.floor_div_eq_div]

theorem multiplier_le {k : ℕ} {r : ℚ} (hr : 0 ≤ r) : (multiplier k r : ℚ) ≤ r * 2 ^ k :=
  Nat.floor_le (by positivity)

theorem lt_multiplier (k : ℕ) (r : ℚ) : r * 2 ^ k < multiplier k r + 1 := Nat.lt_floor_add_one _

/-- The scaled count does not exceed the exact product. -/
theorem scale_le {k d : ℕ} {r : ℚ} (hr : 0 ≤ r) : (scale k (multiplier k r) d : ℚ) ≤ d * r := by
  have hpow : (0 : ℚ) < 2 ^ k := by positivity
  have hm := multiplier_le (k := k) hr
  rw [scale_eq_div]
  calc ((d * multiplier k r / 2 ^ k : ℕ) : ℚ) ≤ ((d * multiplier k r : ℕ) : ℚ) / ((2 ^ k : ℕ) : ℚ) :=
        Nat.cast_div_le
    _ = d * (multiplier k r : ℚ) / 2 ^ k := by push_cast; ring
    _ ≤ d * (r * 2 ^ k) / 2 ^ k := by gcongr
    _ = d * r := by field_simp

/-- It falls short of it by less than one unit for the shift and `d / 2^k` for the stored rate. -/
theorem lt_scale {k d : ℕ} {r : ℚ} :
    (d : ℚ) * r < scale k (multiplier k r) d + 1 + d / 2 ^ k := by
  have hpow : (0 : ℚ) < 2 ^ k := by positivity
  have hm := (lt_multiplier k r).le
  have hdiv : ((d * multiplier k r : ℕ) : ℚ) < (2 ^ k : ℕ) * (d * multiplier k r / 2 ^ k + 1 : ℕ) := by
    exact_mod_cast Nat.lt_mul_div_succ (d * multiplier k r) (Nat.two_pow_pos k)
  rw [scale_eq_div]
  push_cast at hdiv ⊢
  calc (d : ℚ) * r = d * (r * 2 ^ k) / 2 ^ k := by field_simp
    _ ≤ d * (multiplier k r + 1) / 2 ^ k := by gcongr
    _ = d * multiplier k r / 2 ^ k + d / 2 ^ k := by ring
    _ < ((d * multiplier k r / 2 ^ k : ℕ) + 1) + d / 2 ^ k := by
        gcongr
        rw [div_lt_iff₀ hpow]
        linarith

end Scheme.FixedPoint
