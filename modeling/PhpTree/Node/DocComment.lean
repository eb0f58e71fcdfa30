import PhpTree.Node.TreeNode

/-!
# Doc comments

A node has at most one doc comment that counts, the last of the comments before it. Setting it
replaces that comment if it is a doc comment, and otherwise adds one behind the others. What the
attribute for comments holds besides comments is dropped. Each step of this is reported.
-/

namespace PhpTree

/-- The comments to keep in front of a new doc comment: all but a trailing doc comment. -/
def Comment.beforeDoc (cs : List Comment) : List Comment :=
  if cs.getLast?.any Comment.isDoc then cs.dropLast else cs

/-- The comment as a doc comment. -/
def Comment.asDoc (c : Comment) : Comment :=
  { c with kind := .doc }

namespace TreeNode

variable {α : Type} [TreeNode α]

/-- The comments that a new doc comment is added to. A value of another shape counts as none at all,
which is reported. -/
def documentedComments (x : α) : Logged (List Comment) :=
  match attribute? x Key.comments with
  | none => return []
  | some (.comments cs) => return cs
  | some _ => do
    Logged.report .overwritingComments
    return []

/-- Reports whether a doc comment behind `cs` replaces one. -/
def reportDocComment (cs : List Comment) : Logged Unit :=
  if cs.getLast?.any Comment.isDoc then Logged.report .replacingDocComment
  else Logged.report (.appendingDocComment cs.length)

/-- Makes `c` the doc comment of the node, whatever its kind. -/
def setDocComment (x : α) (c : Comment) : Logged α := do
  let cs ← documentedComments x
  reportDocComment cs
  return setAttribute x Key.comments (.comments (Comment.beforeDoc cs ++ [c.asDoc]))

end TreeNode

end PhpTree
