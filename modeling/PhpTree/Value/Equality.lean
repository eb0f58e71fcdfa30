import PhpTree.Value.Attributes

/-!
# Equality of values

Two values are the same when they have the same shape and contents, at every depth. Numbers are
compared as numbers: not a number differs from itself, and the two zeros are the same. Values of
different shapes are never the same, so an empty list of comments differs from an empty list.
-/

namespace PhpTree

mutual

/-- Whether two values are the same. -/
def Value.same : Value → Value → Bool
  | .null, .null => true
  | .bool a, .bool b => a == b
  | .int m, .int n => m == n
  | .float x, .float y => x.same y
  | .str s, .str t => s == t
  | .comments cs, .comments ds => cs == ds
  | .list vs, .list ws => Value.sameList vs ws
  | .name x, .name y => x.same y
  | _, _ => false

/-- Whether two lists hold the same values. -/
def Value.sameList : List Value → List Value → Bool
  | [], [] => true
  | v :: vs, w :: ws => v.same w && Value.sameList vs ws
  | _, _ => false

/-- Whether two names are the same, their attributes included. -/
def Name.same : Name → Name → Bool
  | ⟨text, kind, ⟨entries⟩⟩, ⟨text', kind', ⟨entries'⟩⟩ =>
    text == text' && kind == kind' && Value.sameEntries entries entries'

/-- Whether entries have the same keys, and the same values under them. -/
def Value.sameEntries : {floor floor' : Option String} → Entries Value floor →
    Entries Value floor' → Bool
  | _, _, .nil, .nil => true
  | _, _, .cons key value _ rest, .cons key' value' _ rest' =>
    key == key' && value.same value' && Value.sameEntries rest rest'
  | _, _, _, _ => false

end

/-- Whether two bags have the same keys, and the same values under them. -/
def Bag.same (a b : Attributes) : Bool :=
  Value.sameEntries a.entries b.entries

end PhpTree
