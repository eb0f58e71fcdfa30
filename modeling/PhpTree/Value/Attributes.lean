import PhpTree.Value.Basic

/-!
# Attributes

The attributes of a node are a bag of values. Some keys are well known: the lexer records under
them where a node starts and ends and which comments precede it. A key may be absent, or hold a
value of another shape than its readers expect; readers then see nothing.
-/

namespace PhpTree

/-- Values under string keys. -/
abbrev Attributes : Type :=
  Bag Value

/-! ## Well-known keys -/

namespace Key

/-- The comments that precede a node, in the order of the source. -/
def comments : String := "comments"

/-- The line a node starts at, counted from 1. -/
def startLine : String := "startLine"

/-- The line a node ends at, counted from 1. -/
def endLine : String := "endLine"

/-- The offset in the file that a node starts at, counted from 0. -/
def startFilePos : String := "startFilePos"

/-- The offset in the file that a node ends at, counted from 0. -/
def endFilePos : String := "endFilePos"

/-- The offset in tokens that a node starts at, counted from 0. -/
def startTokenPos : String := "startTokenPos"

/-- The offset in tokens that a node ends at, counted from 0. -/
def endTokenPos : String := "endTokenPos"

/-- Set on text that lost a newline to the closing tag in front of it. -/
def hasLeadingNewline : String := "hasLeadingNewline"

end Key

/-! ## Readers -/

namespace Bag

/-- Whether `key` is present with a value other than null. -/
def isSet (b : Attributes) (key : String) : Bool :=
  match b.get? key with
  | some value => !value.isNull
  | none => false

/-- The value under `key`, null when the key is absent. -/
def read (b : Attributes) (key : String) : Value :=
  b.getD key .null

/-- The coordinate under `key`. -/
def coordinate? (b : Attributes) (key : String) : Option Nat :=
  (b.get? key).bind Value.coordinate?

/-- The comments under `key`. -/
def comments (b : Attributes) (key : String) : List Comment :=
  ((b.get? key).bind Value.comments?).getD []

/-- Whether the truth value under `key` is true. -/
def flag (b : Attributes) (key : String) : Bool :=
  ((b.get? key).bind Value.bool?).getD false

end Bag

end PhpTree
