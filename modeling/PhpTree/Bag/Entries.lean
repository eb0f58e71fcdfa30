/-!
# Ascending entries

`Entries α floor` is a list of keyed values whose keys ascend strictly and all lie above `floor`.
The bound is an index of the type, so a list out of order or with a repeated key cannot be built,
and two lists with the same pairs are equal. The order of strings is by code point, which is also
the order of their UTF-8 bytes.
-/

namespace PhpTree

/-- A key lies above a bound when the bound is absent or a smaller key. -/
def Above (floor : Option String) (key : String) : Prop :=
  ∀ k ∈ floor, k < key

namespace Above

theorem of_none (key : String) : Above none key := by
  intro k hk
  cases hk

theorem of_lt {low key : String} (h : low < key) : Above (some low) key := by
  intro k hk
  cases hk
  exact h

/-- What lies above a key lies above everything that the key itself lies above. -/
theorem trans {floor : Option String} {low key : String} (h : Above floor low)
    (h' : Above (.some low) key) : Above floor key :=
  fun k hk => String.lt_trans (h k hk) (h' low rfl)

/-- A key that is neither below nor equal to another lies above it. -/
theorem of_not_lt_of_ne {low key : String} (hlt : ¬ key < low) (hne : key ≠ low) :
    Above (.some low) key := by
  apply Above.of_lt
  have hle : low ≤ key := hlt
  rcases String.le_total key low with h | h
  · exact absurd (String.le_antisymm h hle) hne
  · exact Decidable.byContradiction fun hn => hne (String.le_antisymm hn hle)

end Above

/-- Keyed values in strictly ascending order of their keys, all keys above `floor`. -/
inductive Entries (α : Type) : Option String → Type where
  | nil {floor : Option String} : Entries α floor
  | cons {floor : Option String} (key : String) (value : α) (above : Above floor key)
      (rest : Entries α (some key)) : Entries α floor

namespace Entries

variable {α : Type} {floor floor' : Option String}

/-- The pairs, in ascending order of their keys. -/
def toList : {floor : Option String} → Entries α floor → List (String × α)
  | _, .nil => []
  | _, .cons key value _ rest => (key, value) :: rest.toList

/-- The value under `key`. -/
def find? (key : String) : {floor : Option String} → Entries α floor → Option α
  | _, .nil => none
  | _, .cons k value _ rest => if key = k then some value else rest.find? key

/-- The same entries under a bound that admits every key the old one admits. -/
def relax (h : ∀ key, Above floor key → Above floor' key) : Entries α floor → Entries α floor'
  | .nil => .nil
  | .cons key value above rest => .cons key value (h key above) rest

/-- Puts `value` under `key`, in place of the value that was there. -/
def insert (key : String) (value : α) :
    {floor : Option String} → Above floor key → Entries α floor → Entries α floor
  | _, h, .nil => .cons key value h .nil
  | _, h, .cons k v above rest =>
    if hlt : key < k then .cons key value h (.cons k v (Above.of_lt hlt) rest)
    else if heq : key = k then .cons k value above rest
    else .cons k v above (rest.insert key value (Above.of_not_lt_of_ne hlt heq))

/-- Drops the entry under `key`, if there is one. -/
def erase (key : String) : {floor : Option String} → Entries α floor → Entries α floor
  | _, .nil => .nil
  | _, .cons k v above rest =>
    if key = k then rest.relax fun _ h => above.trans h
    else .cons k v above (rest.erase key)

/-- Takes out the value under `key`, and yields it with the entries that are left. -/
def remove (key : String) :
    {floor : Option String} → Entries α floor → Option α × Entries α floor
  | _, .nil => (none, .nil)
  | _, .cons k v above rest =>
    if key = k then (some v, rest.relax fun _ h => above.trans h)
    else
      match rest.remove key with
      | (value, left) => (value, .cons k v above left)

end Entries

end PhpTree
