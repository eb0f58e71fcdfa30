import PhpTree.Json.Printer
import PhpTree.Node.TreeNode
import PhpTree.Decimal.Notation

/-!
# Dumps

The JSON form of trees and of what hangs on them. A node is an object with its type, its
structural fields in the order they are declared and, unless there are none, its attributes.
Attributes are an object with the keys in ascending order. A stored value stands for itself:
comments and lists are both arrays, and numbers that are not finite are null.

A dump is shown in two texts: a compact one, with the members of all objects in ascending order of
their keys, and an indented one, with the members in the order given here.
-/

namespace PhpTree

/-! ## Places and comments -/

/-- The dump of a position. -/
def Position.toJson (p : Position) : Json :=
  .obj [("line", .ofNat? p.line), ("filePos", .ofNat? p.filePos), ("tokenPos", .ofNat? p.tokenPos)]

/-- The dump of a comment. -/
def Comment.toJson (c : Comment) : Json :=
  .obj [("kind", .str c.kind.label), ("text", .str c.text), ("line", .ofNat? c.line),
    ("filePos", .ofNat? c.filePos), ("tokenPos", .ofNat? c.tokenPos)]

/-! ## Values -/

/-- The dump of a number. -/
def Binary64.toJson (x : Binary64) : Json :=
  if x.isFinite then .num x.text else .null

/-- The members of the dump of a node: its type, its fields, and its attributes if it has any. -/
def nodeMembers (nodeType : String) (fields attributes : List (String × Json)) :
    List (String × Json) :=
  ("nodeType", .str nodeType) :: fields ++
    (if attributes.isEmpty then [] else [("attributes", .obj attributes)])

mutual

/-- The dump of a value. -/
def Value.toJson : Value → Json
  | .null => .null
  | .bool b => .bool b
  | .int n => .ofInt n.toInt
  | .float x => x.toJson
  | .str s => .str s
  | .comments cs => .arr (cs.map Comment.toJson)
  | .list items => .arr (Value.listToJson items)
  | .name x => x.toJson

/-- The dumps of the values in a list. -/
def Value.listToJson : List Value → List Json
  | [] => []
  | v :: vs => v.toJson :: Value.listToJson vs

/-- The dump of a name. -/
def Name.toJson : Name → Json
  | ⟨text, kind, ⟨entries⟩⟩ =>
    .obj (nodeMembers kind.nodeType [("name", .str text)] (Value.entriesToJson entries))

/-- The members for entries, in ascending order of their keys. -/
def Value.entriesToJson : {floor : Option String} → Entries Value floor → List (String × Json)
  | _, .nil => []
  | _, .cons key value _ rest => (key, value.toJson) :: Value.entriesToJson rest

end

/-- The members for attributes. -/
def Bag.jsonMembers (b : Attributes) : List (String × Json) :=
  Value.entriesToJson b.entries

/-- The dump of attributes. -/
def Bag.toJson (b : Attributes) : Json :=
  .obj b.jsonMembers

/-! ## Nodes -/

mutual

/-- The dump of a node. -/
def Node.toJson : Node → Json
  | .name x => x.toJson
  | .interpolated ⟨parts, attributes⟩ =>
    .obj (nodeMembers "Scalar_Encapsed" [("parts", .arr (Node.listToJson parts))]
      attributes.jsonMembers)
  | .stringPart x =>
    .obj (nodeMembers "Scalar_EncapsedStringPart" [("value", .str x.value)]
      x.attributes.jsonMembers)
  | .inlineHtml x =>
    .obj (nodeMembers "Stmt_InlineHTML" [("value", .str x.value)] x.attributes.jsonMembers)

/-- The dumps of the nodes in a list. -/
def Node.listToJson : List Node → List Json
  | [] => []
  | x :: xs => x.toJson :: Node.listToJson xs

end

/-- The dump of a structural field. -/
def SubNode.toJson : SubNode → Json
  | .node x => x.toJson
  | .nodes xs => .arr (Node.listToJson xs)
  | .str s => .str s

/-! ## Texts -/

/-- The compact text of a dump. -/
def Json.dumpText (x : Json) : String :=
  x.sorted.compact

/-- The indented text of a dump. -/
def Json.prettyDumpText (x : Json) : String :=
  x.pretty

end PhpTree
