import PhpTree.Node.TreeNode

/-!
# Types of nodes

The type of a node tells its variant, and the kind of a name.
-/

namespace PhpTree

theorem NameKind.nodeType_injective : Function.Injective nodeType := by
  intro a b h
  cases a <;> cases b <;> first | rfl | exact absurd h (by decide)

theorem NameKind.nodeType_ne (k : NameKind) : k.nodeType ≠ "Scalar_Encapsed" ∧
    k.nodeType ≠ "Scalar_EncapsedStringPart" ∧ k.nodeType ≠ "Stmt_InlineHTML" := by
  cases k <;> decide

theorem nodeTypes_ne : "Scalar_Encapsed" ≠ "Scalar_EncapsedStringPart" ∧
    "Scalar_Encapsed" ≠ "Stmt_InlineHTML" ∧ "Scalar_EncapsedStringPart" ≠ "Stmt_InlineHTML" := by
  decide

namespace Node

/-- Nodes of one variant, and of one kind if they are names. -/
inductive SameType : Node → Node → Prop
  | name {x y : Name} (h : x.kind = y.kind) : SameType (.name x) (.name y)
  | interpolated (x y : Interpolated) : SameType (.interpolated x) (.interpolated y)
  | stringPart (x y : StringPart) : SameType (.stringPart x) (.stringPart y)
  | inlineHtml (x y : InlineHtml) : SameType (.inlineHtml x) (.inlineHtml y)

theorem sameType_of_nodeType_eq : ∀ {x y : Node},
    TreeNode.nodeType x = TreeNode.nodeType y → SameType x y
  | .name _, .name _, h => .name (NameKind.nodeType_injective h)
  | .interpolated x, .interpolated y, _ => .interpolated x y
  | .stringPart x, .stringPart y, _ => .stringPart x y
  | .inlineHtml x, .inlineHtml y, _ => .inlineHtml x y
  | .name x, .interpolated _, h => absurd h x.kind.nodeType_ne.1
  | .name x, .stringPart _, h => absurd h x.kind.nodeType_ne.2.1
  | .name x, .inlineHtml _, h => absurd h x.kind.nodeType_ne.2.2
  | .interpolated _, .name y, h => absurd h.symm y.kind.nodeType_ne.1
  | .stringPart _, .name y, h => absurd h.symm y.kind.nodeType_ne.2.1
  | .inlineHtml _, .name y, h => absurd h.symm y.kind.nodeType_ne.2.2
  | .interpolated _, .stringPart _, h => absurd h nodeTypes_ne.1
  | .interpolated _, .inlineHtml _, h => absurd h nodeTypes_ne.2.1
  | .stringPart _, .interpolated _, h => absurd h nodeTypes_ne.1.symm
  | .stringPart _, .inlineHtml _, h => absurd h nodeTypes_ne.2.2
  | .inlineHtml _, .interpolated _, h => absurd h nodeTypes_ne.2.1.symm
  | .inlineHtml _, .stringPart _, h => absurd h nodeTypes_ne.2.2.symm

end Node

end PhpTree
