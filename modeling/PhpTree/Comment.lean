import PhpTree.Position

/-!
# Comments

A comment as the lexer saw it, delimiters included.
-/

namespace PhpTree

/-- Ordinary comments, and those that document what follows. -/
inductive CommentKind where
  | plain
  | doc
deriving DecidableEq, Repr

/-- The word for a kind in a dump. -/
def CommentKind.label : CommentKind → String
  | .plain => "plain"
  | .doc => "doc"

/-- A source comment and the coordinates of its start. -/
structure Comment where
  kind : CommentKind
  text : String
  line : Option Nat := none
  filePos : Option Nat := none
  tokenPos : Option Nat := none
deriving DecidableEq, Repr

namespace Comment

/-- Whether the comment documents what follows. -/
def isDoc (c : Comment) : Bool :=
  c.kind == .doc

/-- The comment, starting at `line`. -/
def atLine (c : Comment) (line : Nat) : Comment :=
  { c with line := some line }

/-- The comment, starting at `p`; coordinates unknown in `p` become unknown. -/
def startingAt (c : Comment) (p : Position) : Comment :=
  { c with line := p.line, filePos := p.filePos, tokenPos := p.tokenPos }

/-- Where the comment starts. -/
def start (c : Comment) : Position :=
  { line := c.line, filePos := c.filePos, tokenPos := c.tokenPos }

end Comment

end PhpTree
