import PhpTree.Dump
import PhpTree.Node.Equality
import PhpTree.Proofs.Name.Ranges
import PhpTree.Proofs.Traversal.Labels
import PhpTree.Proofs.Value.Equality

/-!
# Equality of nodes

Nodes are the same if no number in either is not a number, at whatever depth, and they are identical
but for the signs of zeros. So equality is symmetric and transitive, and a node fails to be the same
as itself just if something in it is not a number. What does not depend on the signs of zeros cannot
tell nodes that are the same: the labels of their traces, the dumps of nodes without zeros, and
whether and how a slice of a name is refused.
-/

namespace PhpTree

/-! ## Numbers in nodes -/

mutual

/-- The numbers in a node, at every depth. -/
def Node.numbers : Node → List Binary64
  | .name x => x.numbers
  | .interpolated ⟨parts, attributes⟩ => Node.listNumbers parts ++ attributes.numbers
  | .stringPart x => x.attributes.numbers
  | .inlineHtml x => x.attributes.numbers

/-- The numbers in the nodes of a list. -/
def Node.listNumbers : List Node → List Binary64
  | [] => []
  | x :: xs => x.numbers ++ Node.listNumbers xs

end

/-- The node with `f` applied to the numbers in it. -/
def Node.mapNumbers (f : Binary64 → Binary64) (x : Node) : Node :=
  x.mapBags (Bag.mapNumbers f)

theorem Name.mapAttributes_mapNumbers (f : Binary64 → Binary64) (x : Name) :
    TreeNode.mapAttributes (Bag.mapNumbers f) x = x.mapNumbers f := by
  obtain ⟨text, kind, ⟨entries⟩⟩ := x
  rfl

theorem StringPart.mapAttributes_eq (f : Attributes → Attributes) (x : StringPart) :
    TreeNode.mapAttributes f x = { value := x.value, attributes := f x.attributes } :=
  rfl

theorem InlineHtml.mapAttributes_eq (f : Attributes → Attributes) (x : InlineHtml) :
    TreeNode.mapAttributes f x = { value := x.value, attributes := f x.attributes } :=
  rfl

theorem Bag.mapNumbers_eq_self {f : Binary64 → Binary64} {b : Attributes}
    (h : ∀ a ∈ b.numbers, f a = a) : Bag.mapNumbers f b = b :=
  congrArg Bag.mk (Value.entriesMapNumbers_eq_self h)

theorem Bag.same_iff {a b : Attributes} : a.same b = true ↔ AllNumbers a.numbers ∧
    AllNumbers b.numbers ∧
      Bag.mapNumbers Binary64.mergeZeros a = Bag.mapNumbers Binary64.mergeZeros b := by
  rw [Bag.same, Value.sameEntries_iff, Bag.mapNumbers, Bag.mapNumbers, Bag.mk.injEq]
  rfl

mutual

theorem Node.mapNumbers_eq_self {f : Binary64 → Binary64} : ∀ {x : Node},
    (∀ a ∈ x.numbers, f a = a) → x.mapNumbers f = x
  | .name x, h => by
    rw [Node.mapNumbers, Node.mapBags, Name.mapAttributes_mapNumbers, Name.mapNumbers_eq_self h]
  | .interpolated ⟨parts, attributes⟩, h => by
    rw [Node.numbers, List.forall_mem_append] at h
    rw [Node.mapNumbers, Node.mapBags, Node.mapBagsAll_mapNumbers_eq_self h.1,
      Bag.mapNumbers_eq_self h.2]
  | .stringPart x, h =>
    congrArg (fun attributes => Node.stringPart ⟨x.value, attributes⟩) (Bag.mapNumbers_eq_self h)
  | .inlineHtml x, h =>
    congrArg (fun attributes => Node.inlineHtml ⟨x.value, attributes⟩) (Bag.mapNumbers_eq_self h)

theorem Node.mapBagsAll_mapNumbers_eq_self {f : Binary64 → Binary64} : ∀ {xs : List Node},
    (∀ a ∈ Node.listNumbers xs, f a = a) → Node.mapBagsAll (Bag.mapNumbers f) xs = xs
  | [], _ => rfl
  | x :: xs, h => by
    rw [Node.listNumbers, List.forall_mem_append] at h
    rw [Node.mapBagsAll, ← Node.mapNumbers, Node.mapNumbers_eq_self h.1,
      Node.mapBagsAll_mapNumbers_eq_self h.2]

end

/-! ## Equality -/

mutual

/-- Nodes are the same if there are only numbers in them and they are identical but for the signs of
zeros. -/
theorem Node.same_iff : ∀ {x y : Node}, x.same y = true ↔ AllNumbers x.numbers ∧
    AllNumbers y.numbers ∧ x.mapNumbers Binary64.mergeZeros = y.mapNumbers Binary64.mergeZeros
  | .name x, y => by
    -- A string is opened to its fields wherever it stands, as this is what all definitions match on.
    rcases y with y | ⟨⟨_, _⟩⟩ | _ | _
    case name =>
      simp only [Node.same, Node.mapNumbers, Node.mapBags, Node.numbers, Node.name.injEq,
        Name.mapAttributes_mapNumbers, @Name.same_iff x y]
    all_goals simp [Node.same, Node.mapNumbers, Node.mapBags]
  | .interpolated ⟨parts, attributes⟩, y => by
    rcases y with _ | ⟨⟨parts', attributes'⟩⟩ | _ | _
    case interpolated =>
      simp only [Node.same, Bool.and_eq_true, @Node.sameList_iff parts parts', Bag.same_iff,
        Node.mapNumbers, Node.mapBags, Node.numbers, allNumbers_append_iff,
        Node.interpolated.injEq, Interpolated.mk.injEq]
      grind
    all_goals simp [Node.same, Node.mapNumbers, Node.mapBags]
  | .stringPart x, y => by
    rcases y with _ | ⟨⟨_, _⟩⟩ | y | _
    case stringPart =>
      simp only [Node.same, Bool.and_eq_true, beq_iff_eq, Bag.same_iff, Node.mapNumbers,
        Node.mapBags, Node.numbers, Node.stringPart.injEq, StringPart.mapAttributes_eq,
        StringPart.mk.injEq]
      grind
    all_goals simp [Node.same, Node.mapNumbers, Node.mapBags]
  | .inlineHtml x, y => by
    rcases y with _ | ⟨⟨_, _⟩⟩ | _ | y
    case inlineHtml =>
      simp only [Node.same, Bool.and_eq_true, beq_iff_eq, Bag.same_iff, Node.mapNumbers,
        Node.mapBags, Node.numbers, Node.inlineHtml.injEq, InlineHtml.mapAttributes_eq,
        InlineHtml.mk.injEq]
      grind
    all_goals simp [Node.same, Node.mapNumbers, Node.mapBags]

theorem Node.sameList_iff : ∀ {xs ys : List Node}, Node.sameList xs ys = true ↔
    AllNumbers (Node.listNumbers xs) ∧ AllNumbers (Node.listNumbers ys) ∧
      Node.mapBagsAll (Bag.mapNumbers Binary64.mergeZeros) xs =
        Node.mapBagsAll (Bag.mapNumbers Binary64.mergeZeros) ys
  | [], [] => by simp [Node.sameList, Node.listNumbers, allNumbers_nil]
  | [], _ :: _ => by simp [Node.sameList, Node.mapBagsAll]
  | _ :: _, [] => by simp [Node.sameList, Node.mapBagsAll]
  | x :: xs, y :: ys => by
    simp only [Node.sameList, Bool.and_eq_true, @Node.same_iff x y, @Node.sameList_iff xs ys,
      Node.mapNumbers, Node.listNumbers, Node.mapBagsAll, allNumbers_append_iff, List.cons.injEq]
    grind

end

/-! ## Laws -/

/-- `same` compares the numbers in two things as numbers, and all else as it is. So it is symmetric
and transitive, and only where all numbers are numbers is it reflexive. -/
structure ComparesNumbers {α : Type} (same : α → α → Bool) (numbers : α → List Binary64)
    (mergeZeros : α → α) : Prop where
  same_iff : ∀ x y, same x y = true ↔
    AllNumbers (numbers x) ∧ AllNumbers (numbers y) ∧ mergeZeros x = mergeZeros y
  symm : ∀ x y, same x y = same y x
  trans : ∀ x y z, same x y = true → same y z = true → same x z = true
  self_iff : ∀ x, same x x = true ↔ AllNumbers (numbers x)

theorem comparesNumbers_of_same_iff {α : Type} {same : α → α → Bool} {numbers : α → List Binary64}
    {mergeZeros : α → α} (h : ∀ x y, same x y = true ↔
      AllNumbers (numbers x) ∧ AllNumbers (numbers y) ∧ mergeZeros x = mergeZeros y) :
    ComparesNumbers same numbers mergeZeros where
  same_iff := h
  symm x y := by
    rw [Bool.eq_iff_iff, h, h, and_left_comm, eq_comm]
  trans x y z hxy hyz := by
    obtain ⟨hx, -, hxy⟩ := (h x y).1 hxy
    obtain ⟨-, hz, hyz⟩ := (h y z).1 hyz
    exact (h x z).2 ⟨hx, hz, hxy.trans hyz⟩
  self_iff x := by
    rw [h, and_iff_left rfl, and_self]

theorem Node.comparesNumbers :
    ComparesNumbers Node.same Node.numbers (Node.mapNumbers Binary64.mergeZeros) :=
  comparesNumbers_of_same_iff fun _ _ => Node.same_iff

/-! ## What cannot tell nodes that are the same -/

theorem Node.labels_trace_mapNumbers (f : Binary64 → Binary64) (x : Node) :
    Node.labels (x.mapNumbers f).trace = Node.labels x.trace := by
  rw [Node.mapNumbers, Node.trace_mapBags, Node.labels_map_mapBags]

theorem Node.labels_trace_of_same {x y : Node} (h : x.same y = true) :
    Node.labels x.trace = Node.labels y.trace := by
  rw [← Node.labels_trace_mapNumbers Binary64.mergeZeros x, (Node.same_iff.1 h).2.2,
    Node.labels_trace_mapNumbers]

theorem Node.mergeZeros_eq_self {x : Node} (h : ∀ a ∈ x.numbers, a.isZero = false) :
    x.mapNumbers Binary64.mergeZeros = x :=
  Node.mapNumbers_eq_self fun a ha => Binary64.mergeZeros_of_not_isZero (h a ha)

/-- Without zeros there is nothing that equality leaves open. -/
theorem Node.eq_of_same {x y : Node} (h : x.same y = true)
    (hx : ∀ a ∈ x.numbers, a.isZero = false) (hy : ∀ a ∈ y.numbers, a.isZero = false) : x = y := by
  have hmerged := (Node.same_iff.1 h).2.2
  rwa [Node.mergeZeros_eq_self hx, Node.mergeZeros_eq_self hy] at hmerged

/-! ## Slices -/

namespace Name

theorem same_iff_fields {x y : Name} : x.same y = true ↔
    x.text = y.text ∧ x.kind = y.kind ∧ x.attributes.same y.attributes = true := by
  obtain ⟨text, kind, ⟨entries⟩⟩ := x
  obtain ⟨text', kind', ⟨entries'⟩⟩ := y
  rw [Name.same, Bool.and_eq_true, Bool.and_eq_true, beq_iff_eq, beq_iff_eq, and_assoc]
  rfl

theorem same_withText {x y : Name} (h : x.same y = true) (text : String) :
    (x.withText text).same (y.withText text) = true :=
  same_iff_fields.2 ⟨rfl, (same_iff_fields.1 h).2⟩

/-- The answers of slices of names that are the same: one fault, no name from either, or names that
are the same. -/
inductive SameAnswer : Except Fault (Option Name) → Except Fault (Option Name) → Prop
  | error (fault : Fault) : SameAnswer (.error fault) (.error fault)
  | none : SameAnswer (.ok none) (.ok none)
  | some {r r' : Name} (h : r.same r' = true) : SameAnswer (.ok (some r)) (.ok (some r'))

theorem sameAnswer_ofRange {x y : Name} (h : x.same y = true) (start stop : Nat) :
    SameAnswer (.ok (x.ofRange start stop)) (.ok (y.ofRange start stop)) := by
  have hparts : x.parts = y.parts := congrArg splitText (same_iff_fields.1 h).1
  unfold ofRange
  rw [hparts]
  split
  · exact .some (same_withText h _)
  · exact .none

theorem sameAnswer_slice {x y : Name} (h : x.same y = true) (offset : Int) (length : Option Int) :
    SameAnswer (x.slice offset length).result (y.slice offset length).result := by
  have hparts : x.parts = y.parts := congrArg splitText (same_iff_fields.1 h).1
  obtain ⟨hoffset, -⟩ | ⟨l, rfl, hoffset, hl, -⟩ | ⟨start, stop, hrange, -⟩ :=
    x.slice_outcome offset length
  · rw [result_slice_of_offset length hoffset]
    rw [hparts] at hoffset
    rw [result_slice_of_offset length hoffset]
    exact .error _
  · rw [result_slice_of_length hoffset hl]
    rw [hparts] at hoffset hl
    rw [result_slice_of_length hoffset hl]
    exact .error _
  · rw [slice_of_resolves hrange]
    rw [hparts] at hrange
    rw [slice_of_resolves hrange]
    exact sameAnswer_ofRange h start stop

end Name

/-! ## Equality of trees -/

/-- Nodes are the same just if neither holds anything that is not a number, at whatever depth, and
they are identical once negative zeros are replaced by zeros. So equality is symmetric and
transitive, and a node that is not the same as itself holds something that is not a number. Comments
are never the same as a list, not even when both are empty, nor is an integer the same as a number
with the value of it. Nodes that are the same have the same labels along their traces and, if there
are no zeros in them, the same dumps in either text; and slices of names that are the same are
refused for the same argument, are both no name, or are the same again. -/
theorem equality_fails_at_nan_only :
    ComparesNumbers Node.same Node.numbers (Node.mapNumbers Binary64.mergeZeros) ∧
    (∀ (cs : List Comment) (vs : List Value),
      Value.same (.comments cs) (.list vs) = false ∧
      Value.same (.list vs) (.comments cs) = false) ∧
    (∀ (n : Int64) (a : Binary64),
      Value.same (.int n) (.float a) = false ∧ Value.same (.float a) (.int n) = false) ∧
    (∀ x y : Node, x.same y = true → Node.labels x.trace = Node.labels y.trace) ∧
    (∀ x y : Node, x.same y = true → (∀ a ∈ x.numbers, a.isZero = false) →
      (∀ a ∈ y.numbers, a.isZero = false) →
        x.toJson.dumpText = y.toJson.dumpText ∧
        x.toJson.prettyDumpText = y.toJson.prettyDumpText) ∧
    (∀ x y : Name, x.same y = true → ∀ (offset : Int) (length : Option Int),
      Name.SameAnswer (x.slice offset length).result (y.slice offset length).result) := by
  refine ⟨Node.comparesNumbers, fun cs vs => ?_, fun n a => ?_, fun x y => ?_, ?_, fun x y => ?_⟩
  · simp [Value.same]
  · simp [Value.same]
  · exact Node.labels_trace_of_same
  · intro x y h hx hy
    cases Node.eq_of_same h hx hy
    exact ⟨rfl, rfl⟩
  · exact Name.sameAnswer_slice

/-- In a name, in a list among its attributes, and in a string that holds the name as a part and among
its attributes: zeros of either sign cannot be told apart, and not a number is not even the same as
itself. -/
theorem zeros_same_and_nan_apart :
    let x (a : Binary64) : Name :=
      ⟨"A\\B", .plain, (∅ : Attributes).insert "k" (.list [.null, .float a])⟩
    let tree (a : Binary64) : Node :=
      .interpolated ⟨[.name (x a)], (∅ : Attributes).insert "n" (.name (x a))⟩
    let nan : Binary64 := ⟨0x7FF8000000000000⟩
    ((tree .zero).same (tree .negativeZero) = true ∧
      Node.labels (tree .zero).trace = Node.labels (tree .negativeZero).trace) ∧
    (tree nan).same (tree nan) = false ∧
    (x .zero).same (x .negativeZero) = true ∧
      Name.SameAnswer ((x .zero).slice 1 none).result ((x .negativeZero).slice 1 none).result := by
  intro x tree nan
  obtain ⟨hnodes, -, -, hlabels, -, hslices⟩ := equality_fails_at_nan_only
  have htrees : (tree .zero).same (tree .negativeZero) = true :=
    (hnodes.same_iff _ _).2 ⟨by decide, by decide, rfl⟩
  have hnan : ¬ (tree nan).same (tree nan) = true := fun h =>
    absurd ((hnodes.self_iff _).1 h nan (by decide)) (by decide)
  have hnames : (x .zero).same (x .negativeZero) = true :=
    Name.same_iff.2 ⟨by decide, by decide, rfl⟩
  exact ⟨⟨htrees, hlabels _ _ htrees⟩, Bool.eq_false_iff.2 hnan, hnames, hslices _ _ hnames 1 none⟩

end PhpTree
