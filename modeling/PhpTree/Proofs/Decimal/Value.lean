import Mathlib.Algebra.Order.Field.Power
import Mathlib.Algebra.Order.Field.Rat
import Mathlib.Tactic.FieldSimp
import Mathlib.Tactic.Linarith
import Mathlib.Tactic.NormNum
import Mathlib.Tactic.Positivity
import Mathlib.Tactic.Ring
import PhpTree.Decimal.Shortest

/-!
# The numbers that decimals stand for

Decimals and finite binary numbers stand for rational numbers. The comparisons that pick the
shortest decimal are made on naturals; here they are shown to be comparisons of these rationals.
-/

namespace PhpTree

namespace Decimal

/-- The number that a decimal stands for. -/
def value (d : Decimal) : ℚ :=
  d.digits * 10 ^ d.exponent

/-! ## Comparisons -/

/-- An integral power is the quotient of two natural ones, one of which is trivial. -/
theorem zpow_mul_pow_toNat {b : ℚ} (hb : b ≠ 0) (e : ℤ) :
    b ^ e * b ^ (-e).toNat = b ^ e.toNat := by
  rw [← zpow_natCast b (-e).toNat, ← zpow_natCast b e.toNat, ← zpow_add₀ hb]
  congr 1
  omega

section

variable (d : Decimal) (n : Nat) (e : Int)

/-- The factor that makes both sides of a comparison integral. -/
def scale : ℚ :=
  10 ^ (-d.exponent).toNat * 2 ^ (-e).toNat

theorem scale_pos : 0 < d.scale e := by
  unfold scale
  positivity

theorem cast_left :
    ((d.digits * Nat.pow 10 d.exponent.toNat * Nat.pow 2 (-e).toNat : ℕ) : ℚ) =
      d.value * d.scale e := by
  have h := zpow_mul_pow_toNat (b := 10) (by norm_num) d.exponent
  simp only [Nat.pow_eq, value, scale]
  push_cast
  rw [← h]
  ring

theorem cast_right :
    ((n * Nat.pow 2 e.toNat * Nat.pow 10 (-d.exponent).toNat : ℕ) : ℚ) =
      n * 2 ^ e * d.scale e := by
  have h := zpow_mul_pow_toNat (b := 2) (by norm_num) e
  simp only [Nat.pow_eq, scale]
  push_cast
  rw [← h]
  ring

theorem compareBinary_eq_lt_iff : d.compareBinary n e = .lt ↔ d.value < n * 2 ^ e := by
  rw [compareBinary, Nat.compare_eq_lt, ← Nat.cast_lt (α := ℚ), cast_left, cast_right,
    mul_lt_mul_iff_left₀ (d.scale_pos e)]

theorem compareBinary_eq_gt_iff : d.compareBinary n e = .gt ↔ n * 2 ^ e < d.value := by
  rw [compareBinary, Nat.compare_eq_gt, ← Nat.cast_lt (α := ℚ), cast_left, cast_right,
    mul_lt_mul_iff_left₀ (d.scale_pos e)]

theorem compareBinary_eq_eq_iff : d.compareBinary n e = .eq ↔ d.value = n * 2 ^ e := by
  rw [compareBinary, Nat.compare_eq_eq, ← Nat.cast_inj (R := ℚ), cast_left, cast_right,
    mul_left_inj' (d.scale_pos e).ne']

end

/-! ## Zeros at the end -/

theorem value_stripZeros (fuel : Nat) (d : Decimal) : (stripZeros fuel d).value = d.value := by
  induction fuel generalizing d with
  | zero => rfl
  | succ fuel ih =>
    rw [stripZeros]
    split
    · next h =>
      have hdigits : (d.digits : ℚ) = 10 * (d.digits / 10 : ℕ) := by
        exact_mod_cast (Nat.mul_div_cancel' (Nat.dvd_of_mod_eq_zero h.2)).symm
      rw [ih, value, value, hdigits, zpow_add_one₀ (by norm_num)]
      ring
    · rfl

theorem value_normalize (d : Decimal) : d.normalize.value = d.value :=
  value_stripZeros _ d

end Decimal

namespace Binary64

/-- The magnitude of a finite number. -/
def magnitude (x : Binary64) : ℚ :=
  x.significand * 2 ^ x.exponent

theorem value_exactDecimal (x : Binary64) : x.exactDecimal.value = x.magnitude := by
  unfold exactDecimal
  split
  · next h =>
    have hpow : (2 : ℚ) ^ x.exponent = 2 ^ x.exponent.toNat := by
      rw [← zpow_natCast, Int.toNat_of_nonneg h]
    simp only [Decimal.value, magnitude, Nat.pow_eq, zpow_zero, mul_one, hpow]
    push_cast
    rfl
  · next h =>
    have hexp : x.exponent = -((-x.exponent).toNat : ℤ) := by omega
    simp only [Decimal.value, magnitude, Nat.pow_eq]
    generalize (-x.exponent).toNat = k at hexp ⊢
    rw [hexp, zpow_neg, zpow_neg, zpow_natCast, zpow_natCast, show (10 : ℚ) = 2 * 5 by norm_num,
      mul_pow]
    push_cast
    field_simp

end Binary64

end PhpTree
