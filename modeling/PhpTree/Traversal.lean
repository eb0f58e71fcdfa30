import PhpTree.Node.TreeNode

/-!
# Traversal

A walk visits a node and everything below it, depth first, children in the order of the source. It
calls its visitor on each node twice: on entering, before the children, and on leaving, after
them. The trace of a node is the list of these calls, read off the tree itself.
-/

namespace PhpTree

/-- Children are smaller than the node they belong to. -/
theorem Node.sizeOf_lt_of_mem_children {x child : Node} (h : child ∈ TreeNode.children x) :
    sizeOf child < sizeOf x := by
  cases x with
  | interpolated x =>
    have hmem : child ∈ x.parts := by
      simpa [TreeNode.children, TreeNode.subNodes, TreeNode.subNodeNames, TreeNode.subNode?,
        SubNode.toNodes] using h
    have hlt := List.sizeOf_lt_of_mem hmem
    cases x
    simp only [Node.interpolated.sizeOf_spec, Interpolated.mk.sizeOf_spec] at hlt ⊢
    omega
  | _ =>
    simp [TreeNode.children, TreeNode.subNodes, TreeNode.subNodeNames, TreeNode.subNode?,
      SubNode.toNodes] at h

/-- What to do with a state on entering and on leaving a node. -/
structure Visitor (σ : Type) where
  enter : Node → σ → σ := fun _ s => s
  leave : Node → σ → σ := fun _ s => s

namespace Visitor

variable {σ : Type}

/-- Visits a node and everything below it. -/
def walk (v : Visitor σ) (x : Node) (s : σ) : σ :=
  v.leave x ((TreeNode.children x).attach.foldl (fun s child => walk v child.1 s) (v.enter x s))
termination_by sizeOf x
decreasing_by exact Node.sizeOf_lt_of_mem_children child.2

/-- Visits nodes and everything below them, from left to right. -/
def walkAll (v : Visitor σ) (xs : List Node) (s : σ) : σ :=
  xs.foldl (fun s x => v.walk x s) s

/-- A walk enters the node, walks its children, and leaves the node. -/
theorem walk_eq (v : Visitor σ) (x : Node) (s : σ) :
    v.walk x s = v.leave x (v.walkAll (TreeNode.children x) (v.enter x s)) := by
  rw [walk, walkAll, List.foldl_subtype (g := fun s x => v.walk x s) (fun _ _ _ => rfl)]
  simp

end Visitor

/-- Folds `f` over a node and everything below it, each node before its children. -/
def Node.foldPreorder {σ : Type} (f : Node → σ → σ) (x : Node) (s : σ) : σ :=
  Visitor.walk { enter := f } x s

/-! ## Traces -/

/-- A visit of a node. -/
inductive Visit where
  | enter (x : Node)
  | leave (x : Node)

/-- What a visitor does on a visit. -/
def Visitor.visit {σ : Type} (v : Visitor σ) (s : σ) : Visit → σ
  | .enter x => v.enter x s
  | .leave x => v.leave x s

mutual

/-- The visits of a walk from a node. -/
def Node.trace : Node → List Visit
  | .interpolated ⟨parts, attributes⟩ =>
    .enter (.interpolated ⟨parts, attributes⟩) ::
      (Node.traceAll parts ++ [.leave (.interpolated ⟨parts, attributes⟩)])
  | .name x => [.enter (.name x), .leave (.name x)]
  | .stringPart x => [.enter (.stringPart x), .leave (.stringPart x)]
  | .inlineHtml x => [.enter (.inlineHtml x), .leave (.inlineHtml x)]

/-- The visits of walks from nodes, one after the other. -/
def Node.traceAll : List Node → List Visit
  | [] => []
  | x :: xs => x.trace ++ Node.traceAll xs

end

end PhpTree
