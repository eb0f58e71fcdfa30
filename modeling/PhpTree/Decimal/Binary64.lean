/-!
# Binary floating-point numbers of 64 bits

A number is its bits: a sign, eleven bits of exponent and 52 of fraction. Numbers with the largest
exponent field are not finite: infinities with a zero fraction, otherwise not numbers at all. What
is computed with a finite number is computed exactly, on naturals.
-/

namespace PhpTree

/-- A 64-bit binary floating-point number, by its bits. -/
structure Binary64 where
  bits : UInt64
deriving DecidableEq, Repr

namespace Binary64

/-- The number of fractions, two to the power of 52. -/
def fractionCount : Nat := 0x10000000000000

/-- The number of exponent fields, two to the power of 11. -/
def exponentCount : Nat := 0x800

/-- The weight of the sign bit, two to the power of 63. -/
def signWeight : Nat := 0x8000000000000000

/-- Whether the sign bit is set. -/
def isNegative (x : Binary64) : Bool :=
  signWeight ≤ x.bits.toNat

/-- The eleven bits of the exponent. -/
def exponentField (x : Binary64) : Nat :=
  x.bits.toNat / fractionCount % exponentCount

/-- The 52 bits of the fraction. -/
def fractionField (x : Binary64) : Nat :=
  x.bits.toNat % fractionCount

def isFinite (x : Binary64) : Bool :=
  x.exponentField != 2047

def isNaN (x : Binary64) : Bool :=
  x.exponentField == 2047 && x.fractionField != 0

/-- Whether the number is zero, of either sign. -/
def isZero (x : Binary64) : Bool :=
  x.exponentField == 0 && x.fractionField == 0

/-- Equality of numbers: not a number differs from everything, and the two zeros are equal. -/
def same (x y : Binary64) : Bool :=
  !x.isNaN && !y.isNaN && (x == y || (x.isZero && y.isZero))

/-- The natural `m` of the magnitude `m * 2 ^ e` of a finite number. -/
def significand (x : Binary64) : Nat :=
  if x.exponentField = 0 then x.fractionField else fractionCount + x.fractionField

/-- The exponent `e` of the magnitude `m * 2 ^ e` of a finite number. -/
def exponent (x : Binary64) : Int :=
  if x.exponentField = 0 then -1074 else (x.exponentField : Int) - 1075

/-- Whether the number below in magnitude is half as far away as the number above: at the powers of
two, except the least normal one. -/
def isNarrowBelow (x : Binary64) : Bool :=
  x.fractionField == 0 && 1 < x.exponentField

/-- The quotient `n / 2 ^ shift`, rounded to the nearest natural, a tie to the even one. -/
def roundShift (n shift : Nat) : Nat :=
  let unit := Nat.pow 2 shift
  let q := n / unit
  let r := n % unit
  if 2 * r < unit then q
  else if 2 * r = unit then q + q % 2
  else q + 1

/-- The bits of the positive number nearest to `n`, a tie to the even significand. Rounding up to
the next power of two carries into the exponent field. -/
def magnitudeBits (n : Nat) : Nat :=
  if n = 0 then 0
  else
    let top := n.log2
    let significand := if top ≤ 52 then n * Nat.pow 2 (52 - top) else roundShift n (top - 52)
    (top + 1022) * fractionCount + significand

/-- The number nearest to a machine integer, a tie to the even significand. -/
def ofInt64 (n : Int64) : Binary64 :=
  let sign := if n.toInt < 0 then signWeight else 0
  ⟨UInt64.ofNat (sign + magnitudeBits n.toInt.natAbs)⟩

end Binary64

end PhpTree
