import PhpTree.Bag.Entries

/-!
# Bags

A `Bag α` is a finite map from strings to values, kept in ascending order of the keys. Every
change goes through `insert` and `erase`; `modify` and `modifyD` edit the value under one key in
place.
-/

namespace PhpTree

/-- A finite map from strings, in ascending order of its keys. -/
structure Bag (α : Type) where
  entries : Entries α none

namespace Bag

variable {α : Type}

instance : EmptyCollection (Bag α) := ⟨⟨.nil⟩⟩

instance : Inhabited (Bag α) := ⟨∅⟩

/-- All pairs, in ascending order of their keys. -/
def toList (b : Bag α) : List (String × α) :=
  b.entries.toList

/-- All keys, in ascending order. -/
def keys (b : Bag α) : List String :=
  b.toList.map Prod.fst

/-- The number of keys. -/
def size (b : Bag α) : Nat :=
  b.toList.length

/-- Whether there is no key. -/
def isEmpty (b : Bag α) : Bool :=
  match b.entries with
  | .nil => true
  | .cons .. => false

/-- The value under `key`. -/
def get? (b : Bag α) (key : String) : Option α :=
  b.entries.find? key

/-- The value under `key`, or `default` when the key is absent. -/
def getD (b : Bag α) (key : String) (default : α) : α :=
  (b.get? key).getD default

/-- Whether `key` is present, whatever its value. -/
def contains (b : Bag α) (key : String) : Bool :=
  (b.get? key).isSome

/-- Puts `value` under `key`, in place of the value that was there. -/
def insert (b : Bag α) (key : String) (value : α) : Bag α :=
  ⟨b.entries.insert key value (Above.of_none key)⟩

/-- Drops `key`; an absent key is ignored. -/
def erase (b : Bag α) (key : String) : Bag α :=
  ⟨b.entries.erase key⟩

/-- Takes out the value under `key`, and yields it with the bag that is left. -/
def remove (b : Bag α) (key : String) : Option α × Bag α :=
  match b.entries.remove key with
  | (value, left) => (value, ⟨left⟩)

/-- Edits the value under `key`; an absent key is ignored. -/
def modify (b : Bag α) (key : String) (f : α → α) : Bag α :=
  match b.get? key with
  | some value => b.insert key (f value)
  | none => b

/-- Edits the value under `key`, which is `default` when the key is absent. The key is present
afterwards, also where `f` changes nothing. -/
def modifyD (b : Bag α) (key : String) (default : α) (f : α → α) : Bag α :=
  b.insert key (f (b.getD key default))

/-- Inserts the pairs from left to right, so that the last pair of a repeated key wins. -/
def insertMany (b : Bag α) (pairs : List (String × α)) : Bag α :=
  pairs.foldl (fun b pair => b.insert pair.1 pair.2) b

/-- The bag of the pairs; the last pair of a repeated key wins. -/
def ofList (pairs : List (String × α)) : Bag α :=
  insertMany ∅ pairs

end Bag

end PhpTree
