import PhpTree.Bag.Basic

/-!
# JSON values

A JSON value with the members of its objects in a chosen order, and numbers by their text.
`sorted` puts the members of all objects in ascending order of their keys.
-/

namespace PhpTree

/-- A JSON value. -/
inductive Json where
  | null
  | bool (b : Bool)
  | num (literal : String)
  | str (s : String)
  | arr (items : List Json)
  | obj (members : List (String × Json))

namespace Json

instance : Inhabited Json := ⟨.null⟩

/-- The natural `n`. -/
def ofNat (n : Nat) : Json :=
  .num (toString n)

/-- The integer `n`. -/
def ofInt (n : Int) : Json :=
  .num (toString n)

/-- A natural, or null when there is none. -/
def ofNat? : Option Nat → Json
  | some n => ofNat n
  | none => .null

mutual

/-- The same value with the members of all objects in ascending order of their keys; of members with
one key the last is kept. -/
def sorted : Json → Json
  | .null => .null
  | .bool b => .bool b
  | .num literal => .num literal
  | .str s => .str s
  | .arr items => .arr (sortedItems items)
  | .obj members => .obj (Bag.ofList (sortedMembers members)).toList

/-- Sorts in every item of an array. -/
def sortedItems : List Json → List Json
  | [] => []
  | x :: xs => x.sorted :: sortedItems xs

/-- Sorts in every member of an object, the members themselves left in place. -/
def sortedMembers : List (String × Json) → List (String × Json)
  | [] => []
  | (key, x) :: rest => (key, x.sorted) :: sortedMembers rest

end

end Json

end PhpTree
