/-!
# Positions

Where something stands in a source text, as far as the lexer recorded it.
-/

namespace PhpTree

/-- A place in a source text. Each coordinate may be unknown. -/
structure Position where
  /-- The line, counted from 1. -/
  line : Option Nat := none
  /-- The offset in the file in bytes, counted from 0. -/
  filePos : Option Nat := none
  /-- The offset in tokens, counted from 0. -/
  tokenPos : Option Nat := none
deriving DecidableEq, Repr

namespace Position

/-- Whether no coordinate is known. -/
def isUnknown (p : Position) : Bool :=
  p.line.isNone && p.filePos.isNone && p.tokenPos.isNone

/-- The position in words: line and offset, as far as they are known. -/
def text (p : Position) : String :=
  match p.line, p.filePos with
  | some line, some offset => "line " ++ toString line ++ ", offset " ++ toString offset
  | some line, none => "line " ++ toString line
  | none, some offset => "offset " ++ toString offset
  | none, none => "unknown position"

end Position

end PhpTree
