import PhpTree.Name.Parts
import PhpTree.Text.Lowercase
import PhpTree.Value.Attributes

/-!
# Names

A name such as `A\B` has one or more parts, which separators join. Its text may be any string:
parts may be empty, and the empty text is the name with one empty part. How the name was written,
plain, with a leading separator or behind the word for the current namespace, is its kind, and
never part of the text.

The parts are what the text splits into. The first part, the last part and whether there is more
than one are read off the text directly.
-/

namespace PhpTree

/-- The word for the current namespace, which a relative name is written behind. -/
def currentNamespace : String := "namespace"

/-- The names of classes that are found by their place in the hierarchy and not by a declaration. -/
def specialClassNames : List String :=
  ["self", "parent", "static"]

/-- Whether two texts are equal up to the case of ASCII letters. -/
def equalIgnoringAsciiCase (s t : String) : Bool :=
  s.toList.map Char.toLower == t.toList.map Char.toLower

/-- The type of the nodes for names of a kind. -/
def NameKind.nodeType : NameKind → String
  | .plain => "Name"
  | .fullyQualified => "Name_FullyQualified"
  | .relative => "Name_Relative"

/-- What source code puts in front of the text of a name of a kind. -/
def NameKind.marker : NameKind → String
  | .plain => ""
  | .fullyQualified => String.singleton separator
  | .relative => currentNamespace ++ String.singleton separator

namespace Name

/-! ## Parts -/

/-- The parts of the name. -/
def parts (x : Name) : List String :=
  splitText x.text

/-- The text before the first separator, or all of it. -/
def first (x : Name) : String :=
  String.ofList (x.text.toList.takeWhile (· != separator))

/-- The text behind the last separator, or all of it. -/
def last (x : Name) : String :=
  String.ofList (x.text.toList.reverse.takeWhile (· != separator)).reverse

/-! ## Classification -/

/-- Whether there is a separator in the text. The kind does not matter. -/
def isQualified (x : Name) : Bool :=
  x.text.toList.contains separator

/-- Whether there is no separator in the text. -/
def isUnqualified (x : Name) : Bool :=
  !x.isQualified

def isFullyQualified (x : Name) : Bool :=
  x.kind == .fullyQualified

def isRelative (x : Name) : Bool :=
  x.kind == .relative

/-- Whether the name is one of the special class names, in any case of its ASCII letters. -/
def isSpecialClassName (x : Name) : Bool :=
  x.isUnqualified && specialClassNames.any (equalIgnoringAsciiCase x.text)

/-! ## Spellings -/

/-- The full Unicode lowercase form of the text. -/
def lowercaseText (x : Name) : String :=
  Text.lowercase x.text

/-- The name as it is written in source code. -/
def code (x : Name) : String :=
  x.kind.marker ++ x.text

/-- The name with another text. -/
def withText (x : Name) (text : String) : Name :=
  { x with text := text }

end Name

end PhpTree
