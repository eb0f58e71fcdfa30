import PhpTree.Decimal.Shortest

/-!
# Notation of numbers

How a decimal is laid out. From five places after the point up to sixteen before it the notation
is positional and always has a point; beyond that the exponent is written, with its sign, and the
mantissa has a point only if it has more than one digit.
-/

namespace PhpTree

namespace Decimal

/-- The least exponent of a leading digit that is written positionally. -/
def plainFrom : Int := -5

/-- The least exponent of a leading digit above `plainFrom` that is not written positionally. -/
def plainBelow : Int := 16

/-- The digits of a decimal, the leading one first. -/
def digitChars (d : Decimal) : List Char :=
  Nat.toDigits 10 d.digits

/-- The exponent of the leading digit. -/
def leadingExponent (d : Decimal) : Int :=
  d.exponent + d.digitChars.length - 1

/-- Positional notation, with at least one digit on both sides of the point. -/
def plainChars (d : Decimal) : List Char :=
  let digits := d.digitChars
  if 0 ≤ d.exponent then digits ++ List.replicate d.exponent.toNat '0' ++ ['.', '0']
  else
    let places := (-d.exponent).toNat
    if places < digits.length then
      digits.take (digits.length - places) ++ '.' :: digits.drop (digits.length - places)
    else ['0', '.'] ++ List.replicate (places - digits.length) '0' ++ digits

/-- Notation with an exponent. -/
def scientificChars (d : Decimal) : List Char :=
  let mantissa :=
    match d.digitChars with
    | [] => []
    | [c] => [c]
    | c :: rest => c :: '.' :: rest
  let e := d.leadingExponent
  mantissa ++ ['e', if e < 0 then '-' else '+'] ++ Nat.toDigits 10 e.natAbs

/-- The text of a decimal. -/
def chars (d : Decimal) : List Char :=
  if plainFrom ≤ d.leadingExponent ∧ d.leadingExponent < plainBelow then d.plainChars
  else d.scientificChars

end Decimal

/-- The text of a finite number, from which the number can be read back. -/
def Binary64.text (x : Binary64) : String :=
  let magnitude := if x.isZero then ['0', '.', '0'] else x.shortest.chars
  String.ofList (if x.isNegative then '-' :: magnitude else magnitude)

end PhpTree
