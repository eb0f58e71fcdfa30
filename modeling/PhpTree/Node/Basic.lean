import PhpTree.Value.Attributes

/-!
# Nodes

The nodes of a syntax tree: names, strings with embedded expressions, the literal text between
these expressions, and text outside of the code. Only a string with embedded expressions has
children, its parts. Every node has attributes; a name stored among them is data and not a child.
-/

namespace PhpTree

/-- Literal text between the embedded expressions of a string. -/
structure StringPart where
  value : String
  attributes : Attributes := ∅

/-- Text outside of the tags that enclose code. -/
structure InlineHtml where
  value : String
  attributes : Attributes := ∅

mutual

/-- A node of a syntax tree. -/
inductive Node where
  | name (x : Name)
  | interpolated (x : Interpolated)
  | stringPart (x : StringPart)
  | inlineHtml (x : InlineHtml)

/-- A string whose literal text is interleaved with embedded expressions. -/
structure Interpolated where
  parts : List Node
  attributes : Attributes

end

instance : Inhabited StringPart := ⟨{ value := "" }⟩

instance : Inhabited InlineHtml := ⟨{ value := "" }⟩

instance : Inhabited Interpolated := ⟨{ parts := [], attributes := ∅ }⟩

instance : Inhabited Node := ⟨.interpolated default⟩

/-- Whether a newline right behind the closing tag was dropped from the text. -/
def InlineHtml.hasLeadingNewline (x : InlineHtml) : Bool :=
  x.attributes.flag Key.hasLeadingNewline

/-- The text that a node carries itself, if it has no parts. -/
def Node.ownText? : Node → Option String
  | .name x => some x.text
  | .interpolated _ => none
  | .stringPart x => some x.value
  | .inlineHtml x => some x.value

end PhpTree
