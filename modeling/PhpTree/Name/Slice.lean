import PhpTree.Name.Basic
import PhpTree.Logged

/-!
# Slices of names

A slice keeps a run of the parts of a name. Its offset and length follow the conventions of slices
of arrays: a negative offset counts from the end, no length means up to the end, a negative length
leaves so many parts at the end, and a length beyond the end is cut short there. Arguments that
point outside the parts are refused, the offset before the length. An empty run is no name at all.

The slice that drops the first part has a path of its own, which looks for the first separator and
neither splits nor joins.
-/

namespace PhpTree.Name

/-- The index of the first part of a slice of `count` parts; out of bounds when it is negative or
greater than `count`. -/
def startIndex (count : Nat) (offset : Int) : Int :=
  if offset < 0 then offset + count else offset

/-- The number of parts that `length` asks for behind the index `start`. -/
def spanLength (count : Nat) (start : Int) (length : Int) : Int :=
  if length < 0 then length + count - start else length

/-- Whether an index or a length lies from 0 to `count`. -/
def InBounds (count : Nat) (n : Int) : Prop :=
  0 ≤ n ∧ n ≤ count

instance (count : Nat) (n : Int) : Decidable (InBounds count n) :=
  inferInstanceAs (Decidable (0 ≤ n ∧ n ≤ count))

/-- Refuses a slice for one of its arguments, as the caller passed it. -/
def refuseSlice {α : Type} (x : Name) (bound : SliceBound) (value : Int) : Attempt α :=
  Attempt.refuse (.outOfBounds bound value) (.sliceOutOfBounds bound value x.text)

/-- The indices of the first part of a slice and of the first part behind it. They are equal when
the slice is empty. -/
def sliceRange (x : Name) (offset : Int) (length : Option Int) : Attempt (Nat × Nat) := do
  let count := x.parts.length
  let start := startIndex count offset
  if ¬ InBounds count start then
    x.refuseSlice .offset offset
  else
    match length with
    | none => return (start.toNat, count)
    | some length =>
      let span := spanLength count start length
      if ¬ InBounds count span then
        x.refuseSlice .length length
      else
        return (start.toNat, Nat.min (start + span).toNat count)

/-- The name of the parts from `start` up to `stop`, if there are any. -/
def ofRange (x : Name) (start stop : Nat) : Option Name :=
  if start < stop then some (x.withText (joinParts ((x.parts.take stop).drop start))) else none

/-- The text behind the first separator, if there is one. -/
def textAfterFirst (s : List Char) : Option (List Char) :=
  match s.dropWhile (· != separator) with
  | [] => none
  | _ :: rest => some rest

/-- The name without its first part, if it has more than one. -/
def withoutFirst (x : Name) : Option Name :=
  (textAfterFirst x.text.toList).map fun rest => x.withText (String.ofList rest)

/-- The slice from `offset` on, by splitting and joining. -/
def generalSlice (x : Name) (offset : Int) (length : Option Int) : Attempt (Option Name) := do
  let range ← x.sliceRange offset length
  return x.ofRange range.1 range.2

/-- The slice of the parts of a name from `offset` on, for `length` parts or up to the end. The kind
and the attributes are kept. -/
def slice (x : Name) (offset : Int) (length : Option Int) : Attempt (Option Name) :=
  if offset = 1 ∧ length = none then return x.withoutFirst
  else x.generalSlice offset length

end PhpTree.Name
