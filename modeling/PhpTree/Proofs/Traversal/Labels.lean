import Mathlib.Data.List.Basic
import PhpTree.Proofs.Node.Types
import PhpTree.Proofs.Traversal.Tour

/-!
# Trees are told by the labels of their traces

The label of a node is its type with its own text. Attributes leave no mark on the labels of a
trace, and apart from them the labels tell the whole tree: the labels of a trace, with anything
behind them, have only one reading, because each closing bracket says where a list of parts ends.
-/

namespace PhpTree

namespace Node

/-! ## Trees without their attributes -/

mutual

/-- The tree with `f` applied to the attributes of every node in it. -/
def mapBags (f : Attributes → Attributes) : Node → Node
  | .name x => .name (TreeNode.mapAttributes f x)
  | .interpolated ⟨parts, attributes⟩ => .interpolated ⟨mapBagsAll f parts, f attributes⟩
  | .stringPart x => .stringPart (TreeNode.mapAttributes f x)
  | .inlineHtml x => .inlineHtml (TreeNode.mapAttributes f x)

/-- The trees of a list with `f` applied to the attributes of every node in them. -/
def mapBagsAll (f : Attributes → Attributes) : List Node → List Node
  | [] => []
  | x :: xs => x.mapBags f :: mapBagsAll f xs

end

/-- The shape, the types and the texts of a tree: all that is left without attributes. -/
def bare (x : Node) : Node :=
  x.mapBags fun _ => ∅

theorem mapBagsAll_eq_map (f : Attributes → Attributes) (xs : List Node) :
    mapBagsAll f xs = xs.map (mapBags f) := by
  induction xs with
  | nil => rfl
  | cons x xs ih => rw [mapBagsAll, List.map_cons, ih]

theorem parts_mapBags (f : Attributes → Attributes) (x : Node) :
    (x.mapBags f).parts = x.parts.map (mapBags f) := by
  cases x with
  | interpolated x =>
    cases x
    rw [mapBags, ← mapBagsAll_eq_map]
    rfl
  | name x => rfl
  | stringPart x => rfl
  | inlineHtml x => rfl

end Node

/-- The visit of another node in the place of the one that is visited. -/
def Visit.map (f : Node → Node) : Visit → Visit
  | .enter x => .enter (f x)
  | .leave x => .leave (f x)

namespace Node

/-- A walk visits the same places whatever the attributes are, so nothing that is stored in them is
visited. -/
theorem trace_mapBags (f : Attributes → Attributes) (x : Node) :
    (x.mapBags f).trace = x.trace.map (Visit.map (mapBags f)) := by
  induction x using inductionOnChildren with
  | step x ih =>
    have hchildren : ((x.mapBags f).parts).flatMap trace =
        ((TreeNode.children x).flatMap trace).map (Visit.map (mapBags f)) := by
      rw [parts_mapBags, ← children_eq_parts, List.flatMap_map, List.map_flatMap]
      exact List.flatMap_congr ih
    rw [trace_eq, trace_eq x, children_eq_parts (x.mapBags f), hchildren]
    simp only [List.map_cons, List.map_append, List.map_nil, Visit.map]

/-! ## Labels -/

/-- The type of a node, and its own text if it has no parts. -/
def label (x : Node) : String × Option String :=
  (TreeNode.nodeType x, x.ownText?)

/-- The visits with nothing but the labels of their nodes. -/
def labels (visits : List Visit) : List (Bracket (String × Option String)) :=
  visits.map (Visit.bracket label)

theorem label_mapBags (f : Attributes → Attributes) (x : Node) :
    (x.mapBags f).label = x.label := by
  rcases x with x | ⟨⟨⟩⟩ | x | x <;> rfl

theorem labels_map_mapBags (f : Attributes → Attributes) (visits : List Visit) :
    labels (visits.map (Visit.map (mapBags f))) = labels visits := by
  rw [labels, List.map_map]
  refine List.map_congr_left fun visit _ => ?_
  cases visit <;> simp only [Function.comp_apply, Visit.map, Visit.bracket, label_mapBags]

theorem labels_append (visits visits' : List Visit) :
    labels (visits ++ visits') = labels visits ++ labels visits' :=
  List.map_append

theorem labels_trace_append (x : Node) (rest : List (Bracket (String × Option String))) :
    labels x.trace ++ rest = .opening x.label ::
      (labels ((TreeNode.children x).flatMap trace) ++ .closing x.label :: rest) := by
  rw [trace_eq]
  simp [labels, Visit.bracket]

/-- A node is told by its label and its parts, attributes apart. -/
theorem bare_eq_of_label_eq {x y : Node} (hlabel : x.label = y.label)
    (hparts : x.parts.map bare = y.parts.map bare) : x.bare = y.bare := by
  obtain ⟨htype, htext⟩ := Prod.mk.inj hlabel
  cases sameType_of_nodeType_eq htype with
  | @name x y hkind =>
    obtain ⟨text, kind, _⟩ := x
    obtain ⟨text', kind', _⟩ := y
    have hkind : kind = kind' := hkind
    have htext : text = text' := Option.some.inj htext
    rw [hkind, htext]
    rfl
  | interpolated x y =>
    obtain ⟨parts, _⟩ := x
    obtain ⟨parts', _⟩ := y
    have hparts : parts.map bare = parts'.map bare := hparts
    rw [bare, bare, mapBags, mapBags, mapBagsAll_eq_map, mapBagsAll_eq_map]
    exact congrArg (fun ps => Node.interpolated ⟨ps, ∅⟩) hparts
  | stringPart x y =>
    have htext : x.value = y.value := Option.some.inj htext
    exact congrArg (fun value => Node.stringPart { value := value }) htext
  | inlineHtml x y =>
    have htext : x.value = y.value := Option.some.inj htext
    exact congrArg (fun value => Node.inlineHtml { value := value }) htext

/-! ## Reading labels back -/

/-- With anything behind them, the labels of a trace tell the tree and where the trace ends. -/
def ToldByLabels (x : Node) : Prop :=
  ∀ (y : Node) (rest rest' : List (Bracket (String × Option String))),
    labels x.trace ++ rest = labels y.trace ++ rest' → x.bare = y.bare ∧ rest = rest'

theorem told_of_forall {xs : List Node} (h : ∀ x ∈ xs, x.ToldByLabels) {ys : List Node}
    {rest rest' : List (Bracket (String × Option String))}
    (hrest : Bracket.NothingOpens rest) (hrest' : Bracket.NothingOpens rest')
    (heq : labels (xs.flatMap trace) ++ rest = labels (ys.flatMap trace) ++ rest') :
    xs.map bare = ys.map bare ∧ rest = rest' := by
  induction xs generalizing ys with
  | nil =>
    cases ys with
    | nil => exact ⟨rfl, heq⟩
    | cons y ys =>
      rw [List.flatMap_cons, labels_append, List.append_assoc, labels_trace_append] at heq
      have heq : rest = .opening y.label :: _ := heq
      rw [heq] at hrest
      exact hrest.elim
  | cons x xs ih =>
    cases ys with
    | nil =>
      rw [List.flatMap_cons, labels_append, List.append_assoc, labels_trace_append] at heq
      have heq : .opening x.label :: _ = rest' := heq
      rw [← heq] at hrest'
      exact hrest'.elim
    | cons y ys =>
      rw [List.flatMap_cons, List.flatMap_cons, labels_append, labels_append, List.append_assoc,
        List.append_assoc] at heq
      obtain ⟨hhead, htail⟩ := h x List.mem_cons_self y _ _ heq
      obtain ⟨hxs, hends⟩ := ih (fun z hz => h z (List.mem_cons_of_mem x hz)) htail
      exact ⟨by rw [List.map_cons, List.map_cons, hhead, hxs], hends⟩

theorem toldByLabels (x : Node) : x.ToldByLabels := by
  induction x using inductionOnChildren with
  | step x ih =>
    intro y rest rest' heq
    rw [labels_trace_append, labels_trace_append, List.cons.injEq] at heq
    obtain ⟨hopening, heq⟩ := heq
    -- The lists of parts end at the same closing bracket, since nothing opens there.
    obtain ⟨hparts, hclosing⟩ := told_of_forall ih (Bracket.nothingOpens_closing_cons _ _)
      (Bracket.nothingOpens_closing_cons _ _) heq
    rw [children_eq_parts, children_eq_parts] at hparts
    have hlabel : x.label = y.label := Bracket.opening.inj hopening
    exact ⟨bare_eq_of_label_eq hlabel hparts, (List.cons.inj hclosing).2⟩

/-- Forests have the same labels along their traces just if they are equal up to attributes. -/
theorem labels_eq_iff {xs ys : List Node} :
    labels (xs.flatMap trace) = labels (ys.flatMap trace) ↔ xs.map bare = ys.map bare := by
  constructor
  · intro h
    have heq : labels (xs.flatMap trace) ++ [] = labels (ys.flatMap trace) ++ [] := by rw [h]
    exact (told_of_forall (fun x _ => x.toldByLabels) Bracket.nothingOpens_nil
      Bracket.nothingOpens_nil heq).1
  · intro h
    have hbare : ∀ zs : List Node,
        labels ((zs.map bare).flatMap trace) = labels (zs.flatMap trace) := by
      intro zs
      have htrace : (zs.map bare).flatMap trace =
          (zs.flatMap trace).map (Visit.map (mapBags fun _ => ∅)) := by
        rw [List.flatMap_map, List.map_flatMap]
        exact List.flatMap_congr fun z _ => z.trace_mapBags _
      rw [htrace, labels_map_mapBags]
    rw [← hbare xs, h, hbare ys]

end Node

/-! ## Traversal -/

/-- A walk visits the whole tree once. Whatever a visitor does, a walk leaves it in the state that
its calls lead to when they follow the trace of the tree, and so do walks over forests; folding over
a tree meets just the nodes that are entered. The trace enters and leaves each place of the tree
once, in balanced pairs. It does not depend on what is stored in attributes, and its labels tell a
forest up to attributes. -/
theorem walk_visits_each_place_once :
    (∀ (σ : Type) (v : Visitor σ) (x : Node) (s : σ), v.walk x s = x.trace.foldl v.visit s) ∧
    (∀ (σ : Type) (v : Visitor σ) (xs : List Node) (s : σ),
      v.walkAll xs s = (xs.flatMap Node.trace).foldl v.visit s) ∧
    (∀ (σ : Type) (f : Node → σ → σ) (x : Node) (s : σ),
      x.foldPreorder f s = (x.trace.filterMap Visit.entered?).foldl (fun s y => f y s) s) ∧
    (∀ x : Node, x.IsTour x.tour) ∧
    (∀ (f : Attributes → Attributes) (x : Node),
      (x.mapBags f).trace = x.trace.map (Visit.map (Node.mapBags f))) ∧
    (∀ xs ys : List Node, Node.labels (xs.flatMap Node.trace) = Node.labels (ys.flatMap Node.trace) ↔
      xs.map Node.bare = ys.map Node.bare) := by
  refine ⟨?_, ?_, ?_, ?_, ?_, ?_⟩
  · intro σ v x s
    exact v.walk_eq_foldl_trace x s
  · intro σ v xs s
    exact v.walkAll_eq_foldl_trace xs s
  · intro σ f x s
    exact Node.foldPreorder_eq_foldl f x s
  · exact Node.isTour_tour
  · exact Node.trace_mapBags
  · intro xs ys
    exact Node.labels_eq_iff

end PhpTree
