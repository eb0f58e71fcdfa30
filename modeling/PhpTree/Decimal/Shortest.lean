import PhpTree.Decimal.Binary64

/-!
# Shortest decimals

The decimal that stands for a finite binary number in a text: of the decimals that read back to
the number, one with the fewest digits; of these the nearest to it; and of two equally near ones
the one with an even last digit. A decimal reads back when it lies between the halfway points to
the two neighbours of the number, these points included when the significand is even. All
comparisons are exact, on naturals.
-/

namespace PhpTree

/-- The number `digits * 10 ^ exponent`. -/
structure Decimal where
  digits : Nat
  exponent : Int
deriving DecidableEq, Repr

namespace Decimal

/-- Compares `d` with `n * 2 ^ e`. -/
def compareBinary (d : Decimal) (n : Nat) (e : Int) : Ordering :=
  compare (d.digits * Nat.pow 10 d.exponent.toNat * Nat.pow 2 (-e).toNat)
    (n * Nat.pow 2 e.toNat * Nat.pow 10 (-d.exponent).toNat)

/-- Moves the zeros at the end of the digits into the exponent; at most `fuel` of them. -/
def stripZeros : Nat → Decimal → Decimal
  | 0, d => d
  | fuel + 1, d =>
    if d.digits ≠ 0 ∧ d.digits % 10 = 0 then stripZeros fuel ⟨d.digits / 10, d.exponent + 1⟩ else d

/-- The same number without zeros at the end of the digits. -/
def normalize (d : Decimal) : Decimal :=
  stripZeros d.digits.log2 d

end Decimal

namespace Binary64

/-- Whether a decimal lies among the reals that round to the magnitude of `x`. In units of a quarter
of the last place, the lower end is two below the significand, or one where the gap is narrow. -/
def admits (x : Binary64) (d : Decimal) : Bool :=
  let low := 4 * x.significand - (if x.isNarrowBelow then 1 else 2)
  let high := 4 * x.significand + 2
  let closed := x.significand % 2 == 0
  let atLow := d.compareBinary low (x.exponent - 2)
  let atHigh := d.compareBinary high (x.exponent - 2)
  (atLow == .gt || (closed && atLow == .eq)) && (atHigh == .lt || (closed && atHigh == .eq))

/-- The greatest natural `n` for which `n * 10 ^ e` is at most the magnitude of `x`. -/
def floorAt (x : Binary64) (e : Int) : Nat :=
  x.significand * Nat.pow 2 x.exponent.toNat * Nat.pow 10 (-e).toNat /
    (Nat.pow 2 (-x.exponent).toNat * Nat.pow 10 e.toNat)

/-- The nearest of two neighbours on the grid of `10 ^ e` that enclose the magnitude of `x`; of two
equally near ones the even one. -/
def nearerAt (x : Binary64) (low : Nat) (e : Int) : Nat :=
  match Decimal.compareBinary ⟨2 * low + 1, e⟩ (2 * x.significand) x.exponent with
  | .lt => low + 1
  | .gt => low
  | .eq => if low % 2 = 0 then low else low + 1

/-- The multiple of `10 ^ e` that stands for `x`, if one of the two neighbours of `x` on this grid
reads back; the nearer one if both do. -/
def candidateAt (x : Binary64) (e : Int) : Option Decimal :=
  let low := x.floorAt e
  match x.admits ⟨low, e⟩, x.admits ⟨low + 1, e⟩ with
  | true, true => some ⟨x.nearerAt low e, e⟩
  | true, false => some ⟨low, e⟩
  | false, true => some ⟨low + 1, e⟩
  | false, false => none

/-- The least `k` with the magnitude of `x` below `10 ^ k`. The estimate from the binary logarithm
(`1233 / 4096` is just below the decimal logarithm of two) is at most two too small. -/
def decimalScale (x : Binary64) : Int :=
  let estimate := ((x.significand.log2 : Int) + x.exponent) * 1233 / 4096 - 1
  let above (k : Int) : Bool := Decimal.compareBinary ⟨1, k⟩ x.significand x.exponent == .gt
  if above estimate then estimate
  else if above (estimate + 1) then estimate + 1
  else if above (estimate + 2) then estimate + 2
  else estimate + 3

/-- The magnitude of `x` itself as a decimal. -/
def exactDecimal (x : Binary64) : Decimal :=
  if 0 ≤ x.exponent then ⟨x.significand * Nat.pow 2 x.exponent.toNat, 0⟩
  else ⟨x.significand * Nat.pow 5 (-x.exponent).toNat, x.exponent⟩

/-- The decimal that stands for the magnitude of a finite number other than zero: grids of one digit
up to seventeen are tried in turn. -/
def shortest (x : Binary64) : Decimal :=
  let scale := x.decimalScale
  let found := (List.range 17).findSome? fun n => x.candidateAt (scale - (n + 1 : Nat))
  (found.getD x.exactDecimal).normalize

end Binary64

end PhpTree
