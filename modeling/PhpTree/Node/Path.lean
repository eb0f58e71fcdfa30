import PhpTree.Node.Basic

/-!
# Paths

A path leads from a node down to one of its descendants, by the index of the part to step into at
each string with embedded expressions.
-/

namespace PhpTree

/-- Why a path does not lead to a node. -/
inductive PathFault where
  /-- A step into a node that has no parts. -/
  | notInterpolated
  /-- A step to a part behind the last one. -/
  | noSuchPart
deriving DecidableEq, Repr

namespace Interpolated

/-- Adds a part behind the others. -/
def push (x : Interpolated) (part : Node) : Interpolated :=
  { x with parts := x.parts ++ [part] }

/-- Takes out the part at `index`, and yields it with what is left. -/
def take? (x : Interpolated) (index : Nat) : Except PathFault (Node × Interpolated) :=
  match x.parts[index]? with
  | some part => .ok (part, { x with parts := x.parts.eraseIdx index })
  | none => .error .noSuchPart

end Interpolated

namespace Node

/-- The string with embedded expressions that the node is. -/
def interpolated? : Node → Except PathFault Interpolated
  | .interpolated x => .ok x
  | _ => .error .notInterpolated

/-- The node that a path leads to. -/
def follow : List Nat → Node → Except PathFault Node
  | [], x => .ok x
  | i :: path, .interpolated x =>
    match x.parts[i]? with
    | some part => follow path part
    | none => .error .noSuchPart
  | _ :: _, _ => .error .notInterpolated

/-- Changes the node that a path leads to, if it leads to one. -/
def modifyAlong (f : Node → Node) : List Nat → Node → Node
  | [], x => f x
  | i :: path, .interpolated x =>
    .interpolated { x with parts := x.parts.modify i (modifyAlong f path) }
  | _ :: _, x => x

/-- The node in so many strings that have it as their only part. -/
def wrap : Nat → Node → Node
  | 0, x => x
  | depth + 1, x => .interpolated { parts := [wrap depth x], attributes := ∅ }

end Node

end PhpTree
