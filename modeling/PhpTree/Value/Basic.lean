import PhpTree.Bag.Basic
import PhpTree.Comment
import PhpTree.Decimal.Binary64

/-!
# Attribute values

What the bag of a node stores. Values nest: lists hold values, and name resolution stores whole
names, which have bags of their own. Every accessor answers for one shape of value and is `none`
for the others; only the real number of an integer crosses shapes.
-/

namespace PhpTree

/-- How a name was written, which decides how it resolves. -/
inductive NameKind where
  /-- Resolved against the current namespace and its imports. -/
  | plain
  /-- Written with a leading separator. -/
  | fullyQualified
  /-- Written behind the word for the current namespace. -/
  | relative
deriving DecidableEq, Repr

mutual

/-- An attribute value. -/
inductive Value where
  | null
  | bool (b : Bool)
  | int (n : Int64)
  | float (x : Binary64)
  | str (s : String)
  | comments (cs : List Comment)
  | list (items : List Value)
  | name (x : Name)

/-- A name of one or more parts, joined by separators in `text`. The leading separator or word that
the kind stands for is not part of the text. -/
structure Name where
  text : String
  kind : NameKind
  attributes : Bag Value

end

namespace Value

instance : Inhabited Value := ⟨.null⟩

def isNull : Value → Bool
  | .null => true
  | _ => false

def bool? : Value → Option Bool
  | .bool b => some b
  | _ => none

def int? : Value → Option Int64
  | .int n => some n
  | _ => none

/-- An integer that can be a coordinate, which is never negative. -/
def coordinate? : Value → Option Nat
  | .int n => if 0 ≤ n.toInt then some n.toInt.toNat else none
  | _ => none

/-- A real number; integers are rounded to the nearest one. -/
def float? : Value → Option Binary64
  | .float x => some x
  | .int n => some (Binary64.ofInt64 n)
  | _ => none

def str? : Value → Option String
  | .str s => some s
  | _ => none

def comments? : Value → Option (List Comment)
  | .comments cs => some cs
  | _ => none

def list? : Value → Option (List Value)
  | .list items => some items
  | _ => none

def name? : Value → Option Name
  | .name x => some x
  | _ => none

/-- The greatest integer that can be stored. -/
def maxInt : Nat := 0x7fffffffffffffff

/-- The integer `n`; the greatest one that can be stored when `n` is greater still. -/
def ofNat (n : Nat) : Value :=
  .int (Int64.ofNat (min n maxInt))

/-- An optional value, null when there is none. -/
def ofOption {α : Type} (f : α → Value) : Option α → Value
  | some a => f a
  | none => .null

end Value

end PhpTree
