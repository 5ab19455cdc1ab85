import Mathlib.Algebra.Order.Ring.Int
import Mathlib.Data.Nat.Cast.Basic
import Mathlib.Tactic.NormNum.Basic

/-!
# Integers of a machine

Values of C++ integer types, as integers.  `signed w` is the conversion to a signed type of `w`
bits, the residue modulo `2 ^ w` around zero; `unsigned w` is the conversion to an unsigned one.
Arithmetic on a signed type is undefined when its result does not fit (`fit`).

* `signed_eq_self_iff`: a conversion keeps exactly the values that fit.
* `fit_eq_some_iff`: arithmetic is defined exactly when the result fits.
-/

namespace MachineInts

variable {w : ℕ} {i j : ℤ}

/-! ## Signed types -/

/-- The value is one of the signed type of `w` bits. -/
def Fits (w : ℕ) (i : ℤ) : Prop := -2 ^ w ≤ i * 2 ∧ i * 2 < 2 ^ w

instance (w : ℕ) (i : ℤ) : Decidable (Fits w i) := inferInstanceAs (Decidable (_ ∧ _))

/-- Conversion to the signed type. -/
def signed (w : ℕ) (i : ℤ) : ℤ := i.bmod (2 ^ w)

theorem signed_of_fits (h : Fits w i) : signed w i = i := by
  refine Int.bmod_eq_of_le_mul_two ?_ ?_
  · rw [Nat.cast_pow]
    exact h.1
  · rw [Nat.cast_pow]
    exact h.2

theorem fits_signed (hw : 0 < w) (i : ℤ) : Fits w (signed w i) := by
  obtain ⟨k, rfl⟩ := Nat.exists_eq_add_of_lt hw
  have hpow : 0 < 2 ^ (0 + k + 1) := Nat.two_pow_pos _
  have hcast : ((2 ^ (0 + k + 1) : ℕ) : ℤ) = 2 * 2 ^ k := by
    rw [Nat.cast_pow, pow_succ, zero_add]
    exact mul_comm _ _
  have hlow := Int.le_bmod (x := i) hpow
  have hhigh := Int.bmod_lt (x := i) hpow
  rw [hcast] at hlow hhigh
  have hgoal : (2 : ℤ) ^ (0 + k + 1) = 2 * 2 ^ k := by
    rw [zero_add, pow_succ]
    exact mul_comm _ _
  rw [Fits, hgoal, signed]
  constructor
  · omega
  · omega

/-- **A conversion keeps what fits**, and nothing else. -/
theorem signed_eq_self_iff (hw : 0 < w) : signed w i = i ↔ Fits w i := by
  constructor
  · intro h
    rw [← h]
    exact fits_signed hw i
  · exact signed_of_fits

/-- The result of an operation on the signed type, which is undefined when it does not fit. -/
def fit (w : ℕ) (i : ℤ) : Option ℤ := if Fits w i then some i else none

/-- **Arithmetic is defined** exactly when the result fits. -/
theorem fit_eq_some_iff : fit w i = some j ↔ Fits w i ∧ i = j := by
  rw [fit, Option.ite_none_right_eq_some, Option.some_inj]

theorem fit_of_fits (h : Fits w i) : fit w i = some i := if_pos h

/-! ## Unsigned types -/

/-- Conversion to the unsigned type. -/
def unsigned (w : ℕ) (i : ℤ) : ℕ := (i % 2 ^ w).toNat

/-- A value that is not negative and fits is kept. -/
theorem unsigned_natCast {n : ℕ} (h : n < 2 ^ w) : unsigned w n = n := by
  have hlt : (n : ℤ) < 2 ^ w := by exact_mod_cast h
  rw [unsigned, Int.emod_eq_of_lt (by omega) hlt, Int.toNat_natCast]

/-- A negative value becomes large. -/
theorem unsigned_of_neg (hneg : i < 0) (hlow : -2 ^ w ≤ i) : (unsigned w i : ℤ) = 2 ^ w + i := by
  rw [unsigned, ← Int.add_emod_right, Int.emod_eq_of_lt (by omega) (by omega)]
  omega

end MachineInts
