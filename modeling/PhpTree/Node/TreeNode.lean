import PhpTree.Node.Basic
import PhpTree.Logged
import PhpTree.Name.Basic

/-!
# The contract of nodes

Code that walks trees or annotates them does not need to know the variant of a node. `TreeNode`
says what every variant offers: the name of its type, its structural fields in the order they are
declared, and its attributes. All else is derived from these: access to single attributes,
positions and comments. Both the variants and `Node` itself are instances.
-/

namespace PhpTree

/-- What a structural field of a node holds. -/
inductive SubNode where
  | node (x : Node)
  | nodes (xs : List Node)
  | str (s : String)

namespace SubNode

/-- The nodes in the field; none where it holds text. -/
def toNodes : SubNode → List Node
  | .node x => [x]
  | .nodes xs => xs
  | .str _ => []

/-- The text in the field. -/
def str? : SubNode → Option String
  | .str s => some s
  | _ => none

end SubNode

/-- What every variant of nodes offers. -/
class TreeNode (α : Type) where
  /-- The name of the type of the node. -/
  nodeType : α → String
  /-- The structural fields, in the order they are declared. -/
  subNodeNames : α → List String
  /-- The content of a structural field. -/
  subNode? : α → String → Option SubNode
  attributes : α → Attributes
  withAttributes : α → Attributes → α

instance : TreeNode Name where
  nodeType x := x.kind.nodeType
  subNodeNames _ := ["name"]
  subNode? x field := if field = "name" then some (.str x.text) else none
  attributes x := x.attributes
  withAttributes x attributes := { x with attributes := attributes }

instance : TreeNode Interpolated where
  nodeType _ := "Scalar_Encapsed"
  subNodeNames _ := ["parts"]
  subNode? x field := if field = "parts" then some (.nodes x.parts) else none
  attributes x := x.attributes
  withAttributes x attributes := { x with attributes := attributes }

instance : TreeNode StringPart where
  nodeType _ := "Scalar_EncapsedStringPart"
  subNodeNames _ := ["value"]
  subNode? x field := if field = "value" then some (.str x.value) else none
  attributes x := x.attributes
  withAttributes x attributes := { x with attributes := attributes }

instance : TreeNode InlineHtml where
  nodeType _ := "Stmt_InlineHTML"
  subNodeNames _ := ["value"]
  subNode? x field := if field = "value" then some (.str x.value) else none
  attributes x := x.attributes
  withAttributes x attributes := { x with attributes := attributes }

instance : TreeNode Node where
  nodeType
    | .name x => TreeNode.nodeType x
    | .interpolated x => TreeNode.nodeType x
    | .stringPart x => TreeNode.nodeType x
    | .inlineHtml x => TreeNode.nodeType x
  subNodeNames
    | .name x => TreeNode.subNodeNames x
    | .interpolated x => TreeNode.subNodeNames x
    | .stringPart x => TreeNode.subNodeNames x
    | .inlineHtml x => TreeNode.subNodeNames x
  subNode?
    | .name x => TreeNode.subNode? x
    | .interpolated x => TreeNode.subNode? x
    | .stringPart x => TreeNode.subNode? x
    | .inlineHtml x => TreeNode.subNode? x
  attributes
    | .name x => x.attributes
    | .interpolated x => x.attributes
    | .stringPart x => x.attributes
    | .inlineHtml x => x.attributes
  withAttributes
    | .name x, attributes => .name (TreeNode.withAttributes x attributes)
    | .interpolated x, attributes => .interpolated (TreeNode.withAttributes x attributes)
    | .stringPart x, attributes => .stringPart (TreeNode.withAttributes x attributes)
    | .inlineHtml x, attributes => .inlineHtml (TreeNode.withAttributes x attributes)

namespace TreeNode

variable {α : Type} [TreeNode α]

/-! ## Structure -/

/-- The contents of the structural fields, in the order they are declared. -/
def subNodes (x : α) : List SubNode :=
  (subNodeNames x).filterMap (subNode? x)

/-- The nodes in the structural fields, in order. -/
def children (x : α) : List Node :=
  (subNodes x).flatMap SubNode.toNodes

/-! ## Single attributes -/

/-- Changes the attributes. -/
def mapAttributes (f : Attributes → Attributes) (x : α) : α :=
  withAttributes x (f (attributes x))

/-- The value under `key`. -/
def attribute? (x : α) (key : String) : Option Value :=
  (attributes x).get? key

/-- The value under `key`, or `default` when the key is absent. -/
def attributeD (x : α) (key : String) (default : Value) : Value :=
  (attributes x).getD key default

/-- Whether `key` is present, whatever its value. -/
def hasAttribute (x : α) (key : String) : Bool :=
  (attributes x).contains key

/-- Whether `key` is present with a value other than null. -/
def isAttributeSet (x : α) (key : String) : Bool :=
  (attributes x).isSet key

/-- The value under `key`, null when the key is absent. -/
def readAttribute (x : α) (key : String) : Value :=
  (attributes x).read key

/-- Puts `value` under `key`. -/
def setAttribute (x : α) (key : String) (value : Value) : α :=
  mapAttributes (·.insert key value) x

/-- Takes out the value under `key`, and yields it with the node that is left. -/
def removeAttribute (x : α) (key : String) : Option Value × α :=
  match (attributes x).remove key with
  | (value, left) => (value, withAttributes x left)

/-- Edits the value under `key`; an absent key is ignored. -/
def modifyAttribute (x : α) (key : String) (f : Value → Value) : α :=
  mapAttributes (·.modify key f) x

/-- Edits the value under `key`, which is `default` when the key is absent. -/
def modifyAttributeD (x : α) (key : String) (default : Value) (f : Value → Value) : α :=
  mapAttributes (·.modifyD key default f) x

/-- Edits the value that `readAttribute` shows, in place: where the key is absent, it is null. -/
def editAttribute (x : α) (key : String) (f : Value → Value) : α :=
  mapAttributes (·.modifyD key .null f) x

/-! ## Positions -/

def startLine? (x : α) : Option Nat :=
  (attributes x).coordinate? Key.startLine

def endLine? (x : α) : Option Nat :=
  (attributes x).coordinate? Key.endLine

def startFilePos? (x : α) : Option Nat :=
  (attributes x).coordinate? Key.startFilePos

def endFilePos? (x : α) : Option Nat :=
  (attributes x).coordinate? Key.endFilePos

def startTokenPos? (x : α) : Option Nat :=
  (attributes x).coordinate? Key.startTokenPos

def endTokenPos? (x : α) : Option Nat :=
  (attributes x).coordinate? Key.endTokenPos

/-- The line of a node is the line it starts at. -/
def line? (x : α) : Option Nat :=
  startLine? x

/-- Records the line that the node starts at. -/
def setLine (x : α) (line : Nat) : α :=
  setAttribute x Key.startLine (Value.ofNat line)

/-- Where the node starts. -/
def startPosition (x : α) : Position :=
  { line := startLine? x, filePos := startFilePos? x, tokenPos := startTokenPos? x }

/-- Where the node ends. -/
def endPosition (x : α) : Position :=
  { line := endLine? x, filePos := endFilePos? x, tokenPos := endTokenPos? x }

/-! ## Comments -/

/-- The comments that precede the node. -/
def comments (x : α) : List Comment :=
  (attributes x).comments Key.comments

/-- The last preceding comment, if it is a doc comment. -/
def docComment? (x : α) : Option Comment :=
  (comments x).getLast?.filter Comment.isDoc

end TreeNode

end PhpTree
