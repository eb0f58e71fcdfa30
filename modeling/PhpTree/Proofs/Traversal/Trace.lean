import PhpTree.Traversal

/-!
# Walks follow traces

A walk finds the children of a node through the contract of nodes, by the names of its fields. They
are just the parts of the strings with embedded expressions, so a walk does on every tree what its
trace lists: the trace is read off the tree by recursion, and no field is missed.
-/

namespace PhpTree

namespace Node

/-! ## Children -/

/-- The parts of a string with embedded expressions; no other node has parts. -/
def parts : Node → List Node
  | .interpolated x => x.parts
  | .name _ => []
  | .stringPart _ => []
  | .inlineHtml _ => []

/-- The contract of nodes shows all parts, and nothing else as a child. -/
theorem children_eq_parts (x : Node) : TreeNode.children x = x.parts := by
  cases x <;>
    simp [parts, TreeNode.children, TreeNode.subNodes, TreeNode.subNodeNames, TreeNode.subNode?,
      SubNode.toNodes]

/-- What holds of a node whenever it holds of its children holds of all nodes. -/
@[elab_as_elim]
theorem inductionOnChildren {motive : Node → Prop}
    (step : ∀ x, (∀ child ∈ TreeNode.children x, motive child) → motive x) (x : Node) :
    motive x :=
  step x fun child _ => inductionOnChildren step child
termination_by sizeOf x
decreasing_by exact sizeOf_lt_of_mem_children ‹_›

/-! ## Traces -/

theorem traceAll_eq_flatMap (xs : List Node) : traceAll xs = xs.flatMap trace := by
  induction xs with
  | nil => rfl
  | cons x xs ih => rw [traceAll, List.flatMap_cons, ih]

/-- A trace enters the node, goes through the children, and leaves the node. -/
theorem trace_eq (x : Node) :
    x.trace = .enter x :: ((TreeNode.children x).flatMap trace ++ [.leave x]) := by
  rw [children_eq_parts, ← traceAll_eq_flatMap]
  cases x with
  | interpolated x =>
    cases x
    rw [trace, parts]
  | name x => rw [trace, parts, traceAll, List.nil_append]
  | stringPart x => rw [trace, parts, traceAll, List.nil_append]
  | inlineHtml x => rw [trace, parts, traceAll, List.nil_append]

end Node

/-- The node that a visit enters. -/
def Visit.entered? : Visit → Option Node
  | .enter x => some x
  | .leave _ => none

/-! ## Walks -/

namespace Visitor

variable {σ : Type}

theorem walkAll_eq_foldl_of_forall (v : Visitor σ) {xs : List Node}
    (h : ∀ x ∈ xs, ∀ s, v.walk x s = x.trace.foldl v.visit s) (s : σ) :
    v.walkAll xs s = (xs.flatMap Node.trace).foldl v.visit s := by
  induction xs generalizing s with
  | nil => rfl
  | cons x xs ih =>
    have hx := h x List.mem_cons_self s
    have hxs := ih (fun y hy => h y (List.mem_cons_of_mem x hy)) (x.trace.foldl v.visit s)
    rw [List.flatMap_cons, List.foldl_append, ← hxs, ← hx]
    rfl

/-- A walk does what its trace lists. -/
theorem walk_eq_foldl_trace (v : Visitor σ) (x : Node) (s : σ) :
    v.walk x s = x.trace.foldl v.visit s := by
  induction x using Node.inductionOnChildren generalizing s with
  | step x ih =>
    have hchildren := v.walkAll_eq_foldl_of_forall ih (v.enter x s)
    rw [walk_eq, hchildren, x.trace_eq, List.foldl_cons, List.foldl_append]
    rfl

theorem walkAll_eq_foldl_trace (v : Visitor σ) (xs : List Node) (s : σ) :
    v.walkAll xs s = (xs.flatMap Node.trace).foldl v.visit s :=
  v.walkAll_eq_foldl_of_forall (fun x _ => v.walk_eq_foldl_trace x) s

end Visitor

theorem foldl_visit_of_enter {σ : Type} (f : Node → σ → σ) (visits : List Visit) (s : σ) :
    visits.foldl (Visitor.visit { enter := f }) s =
      (visits.filterMap Visit.entered?).foldl (fun s x => f x s) s := by
  induction visits generalizing s with
  | nil => rfl
  | cons visit visits ih =>
    cases visit with
    | enter x => exact ih (f x s)
    | leave x => exact ih s

/-- Folding over a tree meets the nodes that a walk enters, in this order. -/
theorem Node.foldPreorder_eq_foldl {σ : Type} (f : Node → σ → σ) (x : Node) (s : σ) :
    x.foldPreorder f s = (x.trace.filterMap Visit.entered?).foldl (fun s y => f y s) s := by
  rw [foldPreorder, Visitor.walk_eq_foldl_trace, foldl_visit_of_enter]

end PhpTree
