import PhpTree.Node.Basic
import PhpTree.Value.Equality

/-!
# Equality of nodes

Two nodes are the same when they are of one variant and their contents, attributes and children
are the same, at every depth.
-/

namespace PhpTree

mutual

/-- Whether two nodes are the same. -/
def Node.same : Node → Node → Bool
  | .name x, .name y => x.same y
  | .interpolated ⟨parts, attributes⟩, .interpolated ⟨parts', attributes'⟩ =>
    Node.sameList parts parts' && attributes.same attributes'
  | .stringPart x, .stringPart y => x.value == y.value && x.attributes.same y.attributes
  | .inlineHtml x, .inlineHtml y => x.value == y.value && x.attributes.same y.attributes
  | _, _ => false

/-- Whether two lists hold the same nodes. -/
def Node.sameList : List Node → List Node → Bool
  | [], [] => true
  | x :: xs, y :: ys => x.same y && Node.sameList xs ys
  | _, _ => false

end

end PhpTree
