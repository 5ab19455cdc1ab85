import Mathlib.Data.Int.Log
import Mathlib.Data.Rat.Floor
import Mathlib.Tactic.FieldSimp
import Mathlib.Tactic.Linarith
import Mathlib.Tactic.Ring

/-!
# Rounding to a binary format

A floating-point operation returns the exact result, rounded to the nearest number of `p`
significant bits, and to the even one of two.  Numbers are rationals here, and exponents are not
bounded: what is said holds of a format as long as nothing overflows or becomes subnormal.

* `rounded`: rounding to `p` bits; `roundEven` is that to an integer.
* `abs_rounded_sub_le`: the relative error is at most `2 ^ -p`.
* `rounded_of_fits`: what fits into `p` bits is not changed.
* `rounded_eq_intCast`: what is close enough to an integer becomes that integer.
-/

namespace BinaryFloat

/-! ## Rounding to an integer -/

/-- The integer nearest to `x`, the even one where two are. -/
def roundEven (x : ℚ) : ℤ :=
  if x - ⌊x⌋ < 1 / 2 then ⌊x⌋
  else if 1 / 2 < x - ⌊x⌋ then ⌊x⌋ + 1
  else if ⌊x⌋ % 2 = 0 then ⌊x⌋ else ⌊x⌋ + 1

theorem abs_roundEven_sub_le (x : ℚ) : |(roundEven x : ℚ) - x| ≤ 1 / 2 := by
  have hle := Int.floor_le x
  have hlt := Int.lt_floor_add_one x
  unfold roundEven
  split
  · rw [abs_le]
    constructor <;> linarith
  · split
    · rw [abs_le]
      push_cast
      constructor <;> linarith
    · split
      · rw [abs_le]
        constructor <;> linarith
      · rw [abs_le]
        push_cast
        constructor <;> linarith

/-- An integer that is less than a half away is the nearest one. -/
theorem roundEven_eq_of_abs_lt {x : ℚ} {m : ℤ} (h : |x - m| < 1 / 2) : roundEven x = m := by
  have hround := abs_le.mp (abs_roundEven_sub_le x)
  have hm := abs_lt.mp h
  have hlt : (roundEven x : ℚ) < m + 1 := by linarith
  have hgt : (m : ℚ) < roundEven x + 1 := by linarith
  have hlt' : roundEven x < m + 1 := by exact_mod_cast hlt
  have hgt' : m < roundEven x + 1 := by exact_mod_cast hgt
  omega

/-! ## Rounding to `p` bits -/

/-- The exponent of the last of `p` bits of `x`. -/
def lastExp (p : ℕ) (x : ℚ) : ℤ := Int.log 2 |x| + 1 - p

/-- `x`, rounded to `p` bits. -/
def rounded (p : ℕ) (x : ℚ) : ℚ := roundEven (x / 2 ^ lastExp p x) * 2 ^ lastExp p x

variable {p : ℕ} {x y : ℚ}

@[simp] theorem rounded_zero (p : ℕ) : rounded p 0 = 0 := by
  rw [rounded, zero_div, roundEven_eq_of_abs_lt (m := 0) (by norm_num), Int.cast_zero, zero_mul]

theorem two_zpow_pos (e : ℤ) : (0 : ℚ) < 2 ^ e := zpow_pos (by norm_num) e

/-- A half of the last bit. -/
theorem abs_rounded_sub_le_half (p : ℕ) (x : ℚ) : |rounded p x - x| ≤ 2 ^ lastExp p x / 2 := by
  have hpos := two_zpow_pos (lastExp p x)
  have hscaled : rounded p x - x =
      ((roundEven (x / 2 ^ lastExp p x) : ℚ) - x / 2 ^ lastExp p x) * 2 ^ lastExp p x := by
    rw [rounded]
    field_simp
  rw [hscaled, abs_mul, abs_of_pos hpos]
  calc |(roundEven (x / 2 ^ lastExp p x) : ℚ) - x / 2 ^ lastExp p x| * 2 ^ lastExp p x
      ≤ 1 / 2 * 2 ^ lastExp p x :=
        mul_le_mul_of_nonneg_right (abs_roundEven_sub_le _) hpos.le
    _ = 2 ^ lastExp p x / 2 := by ring

/-- **The relative error** of rounding to `p` bits. -/
theorem abs_rounded_sub_le (p : ℕ) (x : ℚ) : |rounded p x - x| ≤ |x| / 2 ^ p := by
  by_cases hx : x = 0
  · rw [hx, rounded_zero]
    simp
  · have hlog : (2 : ℚ) ^ Int.log 2 |x| ≤ |x| := by
      exact_mod_cast Int.zpow_log_le_self (R := ℚ) one_lt_two (abs_pos.mpr hx)
    have hhalf : (2 : ℚ) ^ lastExp p x / 2 = 2 ^ Int.log 2 |x| / 2 ^ p := by
      rw [lastExp, zpow_sub₀ (by norm_num), zpow_add₀ (by norm_num), zpow_one, zpow_natCast]
      ring
    calc |rounded p x - x| ≤ 2 ^ lastExp p x / 2 := abs_rounded_sub_le_half p x
      _ = 2 ^ Int.log 2 |x| / 2 ^ p := hhalf
      _ ≤ |x| / 2 ^ p := by gcongr

/-- A number on the last bit that is less than half of it away is the nearest one. -/
theorem rounded_eq_of_abs_sub_lt {m : ℤ} (hy : y = m * 2 ^ lastExp p x)
    (h : |x - y| < 2 ^ lastExp p x / 2) : rounded p x = y := by
  have hpos := two_zpow_pos (lastExp p x)
  have hscaled : x / 2 ^ lastExp p x - m = (x - y) / 2 ^ lastExp p x := by
    rw [hy]
    field_simp
  have hclose : |x / 2 ^ lastExp p x - m| < 1 / 2 := by
    rw [hscaled, abs_div, abs_of_pos hpos, div_lt_iff₀ hpos]
    linarith
  rw [rounded, roundEven_eq_of_abs_lt hclose, hy]

/-- `y` has `p` significant bits. -/
def Fits (p : ℕ) (y : ℚ) : Prop := ∃ m e : ℤ, |m| < 2 ^ p ∧ y = m * 2 ^ e

/-- **What fits is not changed.** -/
theorem rounded_of_fits (h : Fits p y) : rounded p y = y := by
  obtain ⟨m, e, hm, hy⟩ := h
  by_cases hzero : y = 0
  · rw [hzero, rounded_zero]
  · have hm' : |(m : ℚ)| < 2 ^ p := by exact_mod_cast hm
    have hbound : |y| < 2 ^ ((p : ℤ) + e) := by
      rw [hy, abs_mul, abs_of_pos (two_zpow_pos e), zpow_add₀ (by norm_num), zpow_natCast]
      exact mul_lt_mul_of_pos_right hm' (two_zpow_pos e)
    have hlog : Int.log 2 |y| < p + e := by
      refine (Int.lt_zpow_iff_log_lt (R := ℚ) one_lt_two (abs_pos.mpr hzero)).mp ?_
      exact_mod_cast hbound
    obtain ⟨k, hk⟩ : ∃ k : ℕ, e = lastExp p y + k :=
      ⟨(e - lastExp p y).toNat, by unfold lastExp; omega⟩
    have hlast : y = ((m * 2 ^ k : ℤ) : ℚ) * 2 ^ lastExp p y := by
      push_cast
      rw [hk, zpow_add₀ (by norm_num), zpow_natCast] at hy
      linarith
    refine rounded_eq_of_abs_sub_lt hlast ?_
    rw [sub_self, abs_zero]
    have := two_zpow_pos (lastExp p y)
    linarith

theorem fits_intCast_mul {m : ℤ} (h : |m| < 2 ^ p) (e : ℤ) : Fits p (m * 2 ^ e) := ⟨m, e, h, rfl⟩

theorem fits_intCast {m : ℤ} (h : |m| < 2 ^ p) : Fits p m :=
  ⟨m, 0, h, by rw [zpow_zero, mul_one]⟩

/-- **What is close enough to an integer becomes that integer**, when the integer part has no
more than `p` bits. -/
theorem rounded_eq_intCast {n : ℤ} (hx : x ≠ 0) (hbound : |x| < 2 ^ p)
    (h : |x - n| ≤ |x| / 2 ^ (p + 1)) : rounded p x = n := by
  have hlog : Int.log 2 |x| < p := by
    refine (Int.lt_zpow_iff_log_lt (R := ℚ) one_lt_two (abs_pos.mpr hx)).mp ?_
    exact_mod_cast hbound
  obtain ⟨k, hk⟩ : ∃ k : ℕ, lastExp p x = -k := ⟨(-lastExp p x).toNat, by unfold lastExp; omega⟩
  have hlast : (n : ℚ) = ((n * 2 ^ k : ℤ) : ℚ) * 2 ^ lastExp p x := by
    push_cast
    rw [hk, zpow_neg, zpow_natCast]
    field_simp
  refine rounded_eq_of_abs_sub_lt hlast (lt_of_le_of_lt h ?_)
  have hlt : |x| < (2 : ℚ) ^ (Int.log 2 |x| + 1) := by
    exact_mod_cast Int.lt_zpow_succ_log_self (R := ℚ) one_lt_two |x|
  have hhalf : (2 : ℚ) ^ lastExp p x / 2 = 2 ^ (Int.log 2 |x| + 1) / 2 ^ (p + 1) := by
    rw [lastExp, zpow_sub₀ (by norm_num), zpow_natCast, pow_succ]
    field_simp
  rw [hhalf]
  gcongr

/-! ## Two formats -/

/-- The value of a `float` operation. -/
def toFloat (x : ℚ) : ℚ := rounded 24 x

/-- The value of a `double` operation. -/
def toDouble (x : ℚ) : ℚ := rounded 53 x

end BinaryFloat
