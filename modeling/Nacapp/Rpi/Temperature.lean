import Mathlib.Data.Nat.Bitwise
import Mathlib.Tactic.NormNum
import Nacapp.Lib.BinaryFloat

/-!
# The temperature sensor

`mcp9808_temperature` (`rpi/src/mcp9808.cpp`) reads a word from the sensor, swaps its bytes and
makes a `float` of thirteen of its bits; `Temp::getTemp` (`rpi/src/temp.hpp`) makes degrees
Fahrenheit of it, with a `double`, and cuts off the fraction.  Four of these operations round.

* `mcp9808_temperature_eq`: the `float` is exact, the sixteenths of a degree that the thirteen bits
  are in two's complement.
* `getTemp_eq`: no rounding is seen in the result.  It is what exact arithmetic gives, for every
  word, also where the exact temperature is a whole degree.
-/

namespace Nacapp.Rpi

open BinaryFloat

/-! ## The code -/

/-- The conversion of a floating-point number to `int`. -/
def truncate (x : ℚ) : ℤ := if 0 ≤ x then ⌊x⌋ else ⌈x⌉

/-- The order of the bytes is swapped. -/
def swapped (word : UInt16) : UInt16 := ((word &&& 0x00FF) <<< 8) ||| ((word &&& 0xFF00) >>> 8)

/-- `mcp9808_temperature`, for the word that is read from the register.  The constants are
`double`s. -/
def mcp9808_temperature (temperature_word : UInt16) : ℚ :=
  let raw_temperature := swapped temperature_word
  let temperature := toFloat (raw_temperature &&& 0x0FFF).toNat
  let temperature := toFloat (toDouble (temperature / 16))
  if raw_temperature &&& 0x1000 ≠ 0 then toFloat (toDouble (temperature - 256)) else temperature

/-- `Temp::getTemp`. -/
def getTemp (temperature_word : UInt16) : ℤ :=
  let t := mcp9808_temperature temperature_word
  truncate (toDouble (toDouble (t * toDouble (9 / 5)) + 32))

/-! ## The word -/

/-- What the sensor means: the lower thirteen bits of the swapped word, in two's complement, are
sixteenths of a degree. -/
def sixteenths (word : UInt16) : ℤ := ((swapped word).toBitVec.setWidth 13).toInt

/-- The twelve bits below the sign, and the sign. -/
theorem toNat_and_twelve (raw : UInt16) : (raw &&& 0x0FFF).toNat = raw.toNat % 4096 := by
  rw [UInt16.toNat_and]
  exact Nat.and_two_pow_sub_one_eq_mod raw.toNat 12

theorem and_sign_ne_zero_iff (raw : UInt16) :
    raw &&& 0x1000 ≠ 0 ↔ raw.toNat / 4096 % 2 = 1 := by
  have hand : (raw &&& 0x1000).toNat = (raw.toNat.testBit 12).toNat * 4096 := by
    rw [UInt16.toNat_and]
    exact Nat.and_two_pow raw.toNat 12
  have hbit : raw.toNat.testBit 12 = decide (raw.toNat / 4096 % 2 = 1) :=
    Nat.testBit_eq_decide_div_mod_eq
  rw [ne_eq, ← UInt16.toNat_inj, hand, hbit]
  by_cases h : raw.toNat / 4096 % 2 = 1
  · simp [h]
  · simp [h]

theorem sixteenths_eq (word : UInt16) :
    sixteenths word = ((swapped word).toNat % 4096 : ℤ) -
      if swapped word &&& 0x1000 ≠ 0 then 4096 else 0 := by
  have hwidth : ((swapped word).toBitVec.setWidth 13).toNat = (swapped word).toNat % 8192 :=
    BitVec.toNat_setWidth 13 _
  rw [sixteenths, BitVec.toInt_eq_toNat_cond, hwidth]
  simp only [and_sign_ne_zero_iff]
  generalize (swapped word).toNat = raw
  split
  · rw [if_neg (by omega)]
    omega
  · rw [if_pos (by omega)]
    norm_num
    omega

theorem sixteenths_bounds (word : UInt16) : -4096 ≤ sixteenths word ∧ sixteenths word < 4096 := by
  rw [sixteenths_eq]
  split
  · omega
  · omega

/-! ## Nothing is lost in the `float` -/

/-- Sixteenths of a number of thirteen bits are exact in both formats. -/
theorem fits_sixteenths {p : ℕ} (hp : 13 ≤ p) {m : ℤ} (hm : |m| ≤ 4096) : Fits p (m / 16) := by
  have hpow : (2 : ℤ) ^ 13 ≤ 2 ^ p := pow_le_pow_right₀ (by norm_num) hp
  have hsmall : |m| < 2 ^ p := lt_of_lt_of_le (by omega) hpow
  have hdiv : (m / 16 : ℚ) = m * 2 ^ (-4 : ℤ) := by
    norm_num
    ring
  rw [hdiv]
  exact fits_intCast_mul hsmall (-4)

theorem toFloat_toDouble_sixteenths {m : ℤ} (hm : |m| ≤ 4096) :
    toFloat (toDouble (m / 16)) = m / 16 := by
  rw [toDouble, rounded_of_fits (fits_sixteenths (by norm_num) hm), toFloat,
    rounded_of_fits (fits_sixteenths (by norm_num) hm)]

/-- **The temperature is exact.** -/
theorem mcp9808_temperature_eq (word : UInt16) :
    mcp9808_temperature word = sixteenths word / 16 := by
  have hlow : |((swapped word).toNat % 4096 : ℤ)| ≤ 4096 := by
    rw [abs_le]
    omega
  have hfits : toFloat (swapped word &&& 0x0FFF).toNat = ((swapped word).toNat % 4096 : ℤ) := by
    have hcast : ((swapped word &&& 0x0FFF).toNat : ℚ) = ((swapped word).toNat % 4096 : ℤ) := by
      rw [toNat_and_twelve]
      rfl
    rw [toFloat, hcast]
    exact rounded_of_fits (fits_intCast (by rw [abs_lt]; omega))
  unfold mcp9808_temperature
  dsimp only
  rw [hfits, toFloat_toDouble_sixteenths hlow, sixteenths_eq]
  split
  · have hsub : (((swapped word).toNat % 4096 : ℤ) / 16 - 256 : ℚ) =
        (((swapped word).toNat % 4096 - 4096 : ℤ) : ℚ) / 16 := by
      push_cast
      ring
    rw [hsub]
    exact toFloat_toDouble_sixteenths (by rw [abs_le]; omega)
  · rw [sub_zero]

/-! ## Nothing is seen of the `double` -/

theorem truncate_intCast (n : ℤ) : truncate n = n := by
  unfold truncate
  split
  · exact Int.floor_intCast n
  · exact Int.ceil_intCast n

/-- Between two integers the fraction does not matter. -/
theorem truncate_eq_of_between {x y : ℚ} {n : ℤ} (hx : n < x ∧ x < n + 1) (hy : n < y ∧ y < n + 1) :
    truncate x = truncate y := by
  have hfloor {z : ℚ} (hz : n < z ∧ z < n + 1) : ⌊z⌋ = n :=
    Int.floor_eq_iff.mpr ⟨hz.1.le, hz.2⟩
  have hceil {z : ℚ} (hz : n < z ∧ z < n + 1) : ⌈z⌉ = n + 1 := by
    refine Int.ceil_eq_iff.mpr ⟨?_, ?_⟩
    · push_cast
      linarith [hz.1]
    · push_cast
      exact hz.2.le
  have hsign : 0 ≤ x ↔ 0 ≤ y := by
    rw [← Int.floor_nonneg (a := x), ← Int.floor_nonneg (a := y), hfloor hx, hfloor hy]
  unfold truncate
  rw [hfloor hx, hfloor hy, hceil hx, hceil hy, if_congr hsign rfl rfl]

/-- `1.8`, as a `double`. -/
theorem toDouble_nine_fifths : toDouble (9 / 5) = 8106479329266893 / 2 ^ 52 := by
  have hlog : Int.log 2 |(9 / 5 : ℚ)| = 0 := by
    rw [abs_of_pos (by norm_num), Int.log_of_one_le_right _ (by norm_num)]
    have hfloor : ⌊(9 / 5 : ℚ)⌋₊ = 1 := by
      rw [Nat.floor_eq_iff (by norm_num)]
      norm_num
    rw [hfloor]
    simp
  have hlast : lastExp 53 (9 / 5) = -52 := by
    rw [lastExp, hlog]
    norm_num
  refine rounded_eq_of_abs_sub_lt (m := 8106479329266893) ?_ ?_
  · rw [hlast]
    norm_num
  · rw [hlast, abs_lt]
    norm_num

/-- Five times the `double` for `1.8` is not 9, but too close to it: multiples are rounded to those
of 9. -/
theorem toDouble_multiple {j : ℤ} (hj : |(j : ℚ)| ≤ 52) :
    toDouble (j * (40532396646334465 / 2 ^ 52)) = (9 * j : ℤ) := by
  by_cases hzero : j = 0
  · subst hzero
    simp [toDouble]
  · have hne : (j : ℚ) ≠ 0 := by exact_mod_cast hzero
    have hpos : (0 : ℚ) < 40532396646334465 / 2 ^ 52 := by norm_num
    refine rounded_eq_intCast (mul_ne_zero hne hpos.ne') ?_ ?_
    · rw [abs_mul, abs_of_pos hpos]
      norm_num
      linarith
    · have hdiff : (j : ℚ) * (40532396646334465 / 2 ^ 52) - (9 * j : ℤ) = j * (1 / 2 ^ 52) := by
        push_cast
        ring
      rw [hdiff, abs_mul, abs_mul, abs_of_pos (by norm_num : (0 : ℚ) < 1 / 2 ^ 52),
        abs_of_pos hpos, mul_div_assoc]
      refine mul_le_mul_of_nonneg_left ?_ (abs_nonneg _)
      norm_num

/-- **A whole number of degrees stays whole.** -/
theorem getTemp_of_whole {word : UInt16} {j : ℤ} (h : sixteenths word = 80 * j) :
    getTemp word = 9 * j + 32 := by
  have hj : |j| ≤ 52 := by
    have hbounds := sixteenths_bounds word
    rw [abs_le]
    omega
  have hproduct : toDouble (mcp9808_temperature word * toDouble (9 / 5)) = (9 * j : ℤ) := by
    have hscaled : ((80 * j : ℤ) : ℚ) / 16 * (8106479329266893 / 2 ^ 52) =
        j * (40532396646334465 / 2 ^ 52) := by
      push_cast
      ring
    rw [mcp9808_temperature_eq, toDouble_nine_fifths, h, hscaled]
    exact toDouble_multiple (by exact_mod_cast hj)
  have hsum : toDouble ((9 * j : ℤ) + 32) = ((9 * j + 32 : ℤ) : ℚ) := by
    have hcast : ((9 * j : ℤ) + 32 : ℚ) = ((9 * j + 32 : ℤ) : ℚ) := by
      push_cast
      rfl
    rw [hcast]
    refine rounded_of_fits (fits_intCast ?_)
    have hbound := abs_le.mp hj
    rw [abs_lt]
    omega
  unfold getTemp
  dsimp only
  rw [hproduct, hsum, truncate_intCast]

/-- **The error** of what is truncated is far below the distance of two temperatures. -/
theorem abs_fahrenheit_sub_le (word : UInt16) :
    |toDouble (toDouble (mcp9808_temperature word * toDouble (9 / 5)) + 32) -
      (sixteenths word / 16 * (9 / 5) + 32)| < 1 / 160 := by
  have hk : |(sixteenths word : ℚ)| ≤ 4096 := by
    have hbounds := sixteenths_bounds word
    have hint : |sixteenths word| ≤ 4096 := by
      rw [abs_le]
      omega
    exact_mod_cast hint
  rw [mcp9808_temperature_eq, toDouble_nine_fifths]
  generalize (sixteenths word : ℚ) = k at hk ⊢
  have hproduct : |k / 16 * (8106479329266893 / 2 ^ 52)| ≤ 512 := by
    rw [abs_mul, abs_div, abs_of_pos (by norm_num : (0 : ℚ) < 16),
      abs_of_pos (by norm_num : (0 : ℚ) < 8106479329266893 / 2 ^ 52)]
    norm_num
    linarith
  have hfirst := abs_rounded_sub_le 53 (k / 16 * (8106479329266893 / 2 ^ 52))
  have hsecond :=
    abs_rounded_sub_le 53 (toDouble (k / 16 * (8106479329266893 / 2 ^ 52)) + 32)
  unfold toDouble at hsecond ⊢
  generalize rounded 53 (k / 16 * (8106479329266893 / 2 ^ 52)) = x at hfirst hsecond ⊢
  generalize rounded 53 (x + 32) = z at hsecond ⊢
  have hx : |x - k / 16 * (8106479329266893 / 2 ^ 52)| ≤ 512 / 2 ^ 53 := by
    refine hfirst.trans ?_
    gcongr
  have hx' := abs_le.mp hx
  have hproduct' := abs_le.mp hproduct
  have hsum : |x + 32| ≤ 1024 := by
    rw [abs_le]
    norm_num at hx' ⊢
    constructor <;> linarith
  have hz : |z - (x + 32)| ≤ 1024 / 2 ^ 53 := by
    refine hsecond.trans ?_
    gcongr
  have hz' := abs_le.mp hz
  have hk' := abs_le.mp hk
  rw [abs_lt]
  norm_num at hx' hz' ⊢
  constructor <;> linarith

/-- **`getTemp` is what exact arithmetic gives**, for every word the sensor sends: the sixteenths of
a degree Celsius, in degrees Fahrenheit, without the fraction. -/
theorem getTemp_eq (word : UInt16) :
    getTemp word = truncate (sixteenths word / 16 * (9 / 5) + 32) := by
  by_cases hwhole : 80 ∣ sixteenths word
  · obtain ⟨j, hj⟩ := hwhole
    have hexact : (sixteenths word / 16 * (9 / 5) + 32 : ℚ) = ((9 * j + 32 : ℤ) : ℚ) := by
      rw [hj]
      push_cast
      ring
    rw [getTemp_of_whole hj, hexact, truncate_intCast]
  · have herror := abs_lt.mp (abs_fahrenheit_sub_le word)
    -- the exact value is at least an eightieth away from the integers around it
    obtain ⟨n, r, hr, hnr⟩ : ∃ n r : ℤ, 1 ≤ r ∧ r ≤ 79 ∧ 9 * sixteenths word + 2560 = 80 * n + r :=
      ⟨(9 * sixteenths word + 2560) / 80, (9 * sixteenths word + 2560) % 80, by omega, by omega,
        by omega⟩
    have hexact : (sixteenths word / 16 * (9 / 5) + 32 : ℚ) = n + r / 80 := by
      have hcast : (9 * sixteenths word + 2560 : ℚ) = 80 * n + r := by exact_mod_cast hnr.2
      linarith
    have hr₁ : (1 : ℚ) ≤ r := by exact_mod_cast hr
    have hr₂ : (r : ℚ) ≤ 79 := by exact_mod_cast hnr.1
    rw [hexact] at herror
    unfold getTemp
    dsimp only
    rw [hexact]
    refine truncate_eq_of_between (n := n) ⟨?_, ?_⟩ ⟨?_, ?_⟩
    · linarith [herror.1]
    · linarith [herror.2]
    · linarith
    · linarith

/-- A read that fails is the word `0xFFFF`, which is a sixteenth of a degree below zero. -/
example : sixteenths 0xFFFF = -1 := by decide

end Nacapp.Rpi
