import PhpTree.Node.TreeNode

/-!
# Edits of stored values

Changes to a value in place. An edit is meant for one shape of value, and leaves all others alone.
-/

namespace PhpTree

/-- A change to an attribute value. -/
inductive Edit where
  /-- Puts a value in place of any other. -/
  | replace (value : Value)
  /-- Adds a comment at the end of the comments. -/
  | pushComment (c : Comment)
  /-- Drops all comments. -/
  | clearComments
  /-- Drops the last comment. -/
  | popComment
  /-- Adds a value at the end of a list. -/
  | push (value : Value)
  /-- Records the line that a stored name starts at. -/
  | setNameLine (line : Nat)

namespace Edit

/-- The changed value, if the edit is meant for values of this shape. -/
def changed? : Edit → Value → Option Value
  | .replace value, _ => some value
  | .pushComment c, .comments cs => some (.comments (cs ++ [c]))
  | .clearComments, .comments _ => some (.comments [])
  | .popComment, .comments cs => if cs = [] then none else some (.comments cs.dropLast)
  | .push value, .list items => some (.list (items ++ [value]))
  | .setNameLine line, .name x => some (.name (TreeNode.setLine x line))
  | _, _ => none

/-- Whether the edit is meant for values of this shape. -/
def applies (e : Edit) (value : Value) : Bool :=
  (e.changed? value).isSome

/-- The changed value, or the same value if the edit is not meant for it. -/
def apply (e : Edit) (value : Value) : Value :=
  (e.changed? value).getD value

end Edit

end PhpTree
