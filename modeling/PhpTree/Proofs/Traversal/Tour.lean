import PhpTree.Node.Path
import PhpTree.Proofs.Traversal.Brackets
import PhpTree.Proofs.Traversal.Trace

/-!
# Tours of the places in a tree

Equal nodes can stand at several places of a tree, so what a walk does at each of them is said of
places. A place is the path that leads there through the parts. The tour of a tree lists the places
that a walk enters and leaves: each place there is, once for each, in balanced pairs.
-/

namespace PhpTree

/-- The node of a visit as a label: an opening bracket on entering and a closing one on leaving. -/
def Visit.bracket {β : Type} (f : Node → β) : Visit → Bracket β
  | .enter x => .opening (f x)
  | .leave x => .closing (f x)

namespace Node

mutual

/-- The places that a walk enters and leaves, as paths from the node. -/
def tour : Node → List (Bracket (List Nat))
  | .interpolated ⟨parts, _⟩ => .opening [] :: (tourFrom 0 parts ++ [.closing []])
  | .name _ => [.opening [], .closing []]
  | .stringPart _ => [.opening [], .closing []]
  | .inlineHtml _ => [.opening [], .closing []]

/-- The places in the parts of a node from the part at an index on. -/
def tourFrom : Nat → List Node → List (Bracket (List Nat))
  | _, [] => []
  | i, x :: xs => x.tour.map (Bracket.map (i :: ·)) ++ tourFrom (i + 1) xs

end

theorem tour_eq (x : Node) :
    x.tour = .opening [] :: (tourFrom 0 (TreeNode.children x) ++ [.closing []]) := by
  rw [children_eq_parts]
  cases x with
  | interpolated x =>
    cases x
    rw [tour, parts]
  | name x => rw [tour, parts, tourFrom, List.nil_append]
  | stringPart x => rw [tour, parts, tourFrom, List.nil_append]
  | inlineHtml x => rw [tour, parts, tourFrom, List.nil_append]

/-! ## Paths -/

theorem follow_nil (x : Node) : x.follow [] = .ok x := by
  cases x <;> rfl

theorem follow_cons_of_getElem? {x child : Node} {i : Nat}
    (h : (TreeNode.children x)[i]? = some child) (path : List Nat) :
    x.follow (i :: path) = child.follow path := by
  rw [children_eq_parts] at h
  cases x with
  | interpolated x =>
    have h : x.parts[i]? = some child := h
    rw [follow, h]
  | _ => cases h

/-- A path steps into a child first, and goes on from there. -/
theorem follow_cons_eq_ok_iff {x y : Node} {i : Nat} {path : List Nat} :
    x.follow (i :: path) = .ok y ↔
      ∃ child, (TreeNode.children x)[i]? = some child ∧ child.follow path = .ok y := by
  constructor
  · intro h
    cases hchild : (TreeNode.children x)[i]? with
    | some child => exact ⟨child, rfl, by rwa [follow_cons_of_getElem? hchild] at h⟩
    | none =>
      rw [children_eq_parts] at hchild
      cases x with
      | interpolated x =>
        have hchild : x.parts[i]? = none := hchild
        rw [follow, hchild] at h
        cases h
      | _ => cases h
  · rintro ⟨child, hchild, h⟩
    rwa [follow_cons_of_getElem? hchild]

/-! ## What a tour enters -/

theorem mem_openings_tourFrom {xs : List Node} {i : Nat} {path : List Nat} :
    path ∈ Bracket.openings (tourFrom i xs) ↔
      ∃ j child rest, xs[j]? = some child ∧ path = (i + j) :: rest ∧
        rest ∈ Bracket.openings child.tour := by
  induction xs generalizing i with
  | nil => simp [tourFrom]
  | cons x xs ih =>
    rw [tourFrom, Bracket.openings_append, Bracket.openings_map, List.mem_append, List.mem_map, ih]
    constructor
    · rintro (⟨rest, hrest, rfl⟩ | ⟨j, child, rest, hchild, rfl, hrest⟩)
      · exact ⟨0, x, rest, rfl, rfl, hrest⟩
      · exact ⟨j + 1, child, rest, hchild, by rw [Nat.add_right_comm, Nat.add_assoc], hrest⟩
    · rintro ⟨j, child, rest, hchild, rfl, hrest⟩
      cases j with
      | zero =>
        cases hchild
        exact Or.inl ⟨rest, hrest, rfl⟩
      | succ j =>
        exact Or.inr ⟨j, child, rest, hchild, by rw [Nat.add_right_comm, Nat.add_assoc], hrest⟩

/-- A tour enters just the places that paths lead to. -/
theorem mem_openings_tour {x : Node} {path : List Nat} :
    path ∈ Bracket.openings x.tour ↔ ∃ y, x.follow path = .ok y := by
  induction x using inductionOnChildren generalizing path with
  | step x ih =>
    rw [tour_eq, Bracket.openings_opening_cons, Bracket.openings_append, List.mem_cons,
      List.mem_append, mem_openings_tourFrom]
    cases path with
    | nil => simp [follow_nil]
    | cons i path =>
      simp only [follow_cons_eq_ok_iff, Bracket.openings_closing_cons, Bracket.openings_nil,
        List.not_mem_nil, or_false, Nat.zero_add, reduceCtorEq, false_or, List.cons.injEq]
      constructor
      · rintro ⟨_, child, _, hchild, ⟨rfl, rfl⟩, hrest⟩
        obtain ⟨y, hy⟩ := (ih child (List.mem_of_getElem? hchild)).1 hrest
        exact ⟨y, child, hchild, hy⟩
      · rintro ⟨y, child, hchild, hy⟩
        have hrest := (ih child (List.mem_of_getElem? hchild)).2 ⟨y, hy⟩
        exact ⟨i, child, path, hchild, ⟨rfl, rfl⟩, hrest⟩

theorem nodup_openings_tourFrom {xs : List Node}
    (h : ∀ x ∈ xs, (Bracket.openings x.tour).Nodup) (i : Nat) :
    (Bracket.openings (tourFrom i xs)).Nodup := by
  induction xs generalizing i with
  | nil => exact List.nodup_nil
  | cons x xs ih =>
    have hx : ((Bracket.openings x.tour).map (i :: ·)).Nodup :=
      List.pairwise_map.2 ((h x List.mem_cons_self).imp fun hne heq => hne (List.cons.inj heq).2)
    have hxs := ih (fun y hy => h y (List.mem_cons_of_mem x hy)) (i + 1)
    rw [tourFrom, Bracket.openings_append, Bracket.openings_map, List.nodup_append]
    refine ⟨hx, hxs, ?_⟩
    -- The places in different parts differ in their first step.
    rintro place hplace _ hplace' rfl
    obtain ⟨rest, -, rfl⟩ := List.mem_map.1 hplace
    obtain ⟨j, _, _, -, heq, -⟩ := mem_openings_tourFrom.1 hplace'
    have hstep := (List.cons.inj heq).1
    omega

/-- A tour enters no place twice. -/
theorem nodup_openings_tour (x : Node) : (Bracket.openings x.tour).Nodup := by
  induction x using inductionOnChildren with
  | step x ih =>
    have hchildren := nodup_openings_tourFrom ih 0
    rw [tour_eq, Bracket.openings_opening_cons, Bracket.openings_append,
      Bracket.openings_closing_cons, Bracket.openings_nil, List.append_nil, List.nodup_cons]
    refine ⟨fun hmem => ?_, hchildren⟩
    obtain ⟨_, _, _, -, heq, -⟩ := mem_openings_tourFrom.1 hmem
    cases heq

/-! ## How a tour is bracketed -/

theorem balanced_tourFrom {xs : List Node} (h : ∀ x ∈ xs, Bracket.Balanced x.tour) (i : Nat) :
    Bracket.Balanced (tourFrom i xs) := by
  induction xs generalizing i with
  | nil => exact Bracket.Balanced.nil
  | cons x xs ih =>
    have hx := (h x List.mem_cons_self).map (i :: ·)
    exact hx.append (ih (fun y hy => h y (List.mem_cons_of_mem x hy)) (i + 1))

theorem balanced_tour (x : Node) : Bracket.Balanced x.tour := by
  induction x using inductionOnChildren with
  | step x ih =>
    rw [tour_eq]
    exact Bracket.Balanced.pair [] (balanced_tourFrom ih 0) Bracket.Balanced.nil

/-! ## The nodes along a tour -/

theorem map_tourFrom {xs : List Node} {i : Nat} {nodeAt : List Nat → Except PathFault Node}
    (h : ∀ x ∈ xs, x.tour.map (Bracket.map fun path => x.follow path) =
      x.trace.map (Visit.bracket .ok))
    (hat : ∀ j child path, xs[j]? = some child →
      nodeAt ((i + j) :: path) = child.follow path) :
    (tourFrom i xs).map (Bracket.map nodeAt) = (xs.flatMap trace).map (Visit.bracket .ok) := by
  induction xs generalizing i with
  | nil => rfl
  | cons x xs ih =>
    have hstep : ∀ path, nodeAt (i :: path) = x.follow path := fun path => hat 0 x path rfl
    have hx : (x.tour.map (Bracket.map (i :: ·))).map (Bracket.map nodeAt) =
        x.trace.map (Visit.bracket .ok) := by
      rw [← h x List.mem_cons_self, List.map_map]
      refine List.map_congr_left fun b _ => ?_
      cases b <;> simp only [Function.comp_apply, Bracket.map, hstep]
    have hxs := ih (i := i + 1) (fun y hy => h y (List.mem_cons_of_mem x hy))
      fun j child path hchild => by
        rw [Nat.add_right_comm, Nat.add_assoc]
        exact hat (j + 1) child path hchild
    rw [tourFrom, List.map_append, hx, hxs, List.flatMap_cons, List.map_append]

/-- The nodes at the places of a tour are the nodes of the trace. -/
theorem map_follow_tour (x : Node) :
    x.tour.map (Bracket.map fun path => x.follow path) = x.trace.map (Visit.bracket .ok) := by
  induction x using inductionOnChildren with
  | step x ih =>
    have hchildren : (tourFrom 0 (TreeNode.children x)).map
        (Bracket.map fun path => x.follow path) =
          ((TreeNode.children x).flatMap trace).map (Visit.bracket .ok) := by
      refine map_tourFrom ih fun j child path hchild => ?_
      rw [Nat.zero_add]
      exact follow_cons_of_getElem? hchild path
    rw [tour_eq, trace_eq]
    simp only [List.map_cons, List.map_append, List.map_nil, hchildren, Bracket.map,
      Visit.bracket, follow_nil]

/-! ## Tours -/

/-- A tour of a tree enters each place once and leaves it once, in balanced pairs, and no other
place; it goes along the trace of the tree. -/
structure IsTour (x : Node) (tour : List (Bracket (List Nat))) : Prop where
  balanced : Bracket.Balanced tour
  entered_nodup : (Bracket.openings tour).Nodup
  left_nodup : (Bracket.closings tour).Nodup
  mem_entered : ∀ path, path ∈ Bracket.openings tour ↔ ∃ y, x.follow path = .ok y
  mem_left : ∀ path, path ∈ Bracket.closings tour ↔ ∃ y, x.follow path = .ok y
  nodes : tour.map (Bracket.map fun path => x.follow path) = x.trace.map (Visit.bracket .ok)

theorem isTour_tour (x : Node) : x.IsTour x.tour where
  balanced := x.balanced_tour
  entered_nodup := x.nodup_openings_tour
  left_nodup := x.balanced_tour.closings_perm.nodup_iff.2 x.nodup_openings_tour
  mem_entered _ := mem_openings_tour
  mem_left _ := x.balanced_tour.closings_perm.mem_iff.trans mem_openings_tour
  nodes := x.map_follow_tour

end Node

end PhpTree
