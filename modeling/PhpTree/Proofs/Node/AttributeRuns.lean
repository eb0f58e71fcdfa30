import PhpTree.Node.DocComment
import PhpTree.Node.Lawful
import PhpTree.Proofs.Bag.Histories
import PhpTree.Proofs.Dump.Lossless
import PhpTree.Proofs.Traversal.Labels

/-!
# Attributes of nodes over whole runs

A change of the attributes of a node is the same change of the attributes alone, put back into the
node. So a run of changes on a node is a run on its attributes, which every reader of the node then
shows, and the laws of nodes keep all else as it was: type, texts, children, the walk, and the
members of the dump apart from one. What is done and reported does not depend on whether the node is
wrapped first, because both read the same attributes.
-/

namespace PhpTree

section Steps

variable {α : Type} [TreeNode α]

/-! ## Steps on nodes and on attributes -/

/-- The change of the attributes of a node under `key`. -/
def SlotChange.onNode (key : String) : SlotChange → α → α
  | set value, x => TreeNode.setAttribute x key value
  | remove, x => (TreeNode.removeAttribute x key).2
  | edit f, x => TreeNode.modifyAttribute x key f
  | editOr default f, x => TreeNode.modifyAttributeD x key default f
  | editRead f, x => TreeNode.editAttribute x key f

/-- A step of a run on the attributes of a node. -/
inductive NodeStep where
  | change (key : String) (c : SlotChange)
  /-- Puts other attributes in place of all there are. -/
  | setAttributes (b : Attributes)
  | setLine (line : Nat)
  | setDocComment (c : Comment)

/-- What is stored for comments when `c` becomes the doc comment behind those stored before. -/
def Value.documented (c : Comment) : Value → Value
  | .comments cs => .comments (Comment.beforeDoc cs ++ [c.asDoc])
  | _ => .comments [c.asDoc]

namespace NodeStep

def onNode : NodeStep → α → Logged α
  | change key c, x => return c.onNode key x
  | setAttributes b, x => return TreeNode.withAttributes x b
  | setLine line, x => return TreeNode.setLine x line
  | setDocComment c, x => TreeNode.setDocComment x c

/-- The steps that do the same to attributes alone. -/
def bagSteps : NodeStep → List BagStep
  | change key c => [.change key c]
  | setAttributes b => [.clear, .extend b.toList]
  | setLine line => [.change Key.startLine (.set (Value.ofNat line))]
  | setDocComment c => [.change Key.comments (.editOr (.comments []) (Value.documented c))]

end NodeStep

/-- The node that a run of steps leads to, with all that is reported on the way. -/
def runOnNode (steps : List NodeStep) (x : α) : Logged α :=
  steps.foldlM (fun x step => step.onNode x) x

def runOnBag (steps : List NodeStep) (b : Attributes) : Attributes :=
  runBag (steps.flatMap NodeStep.bagSteps) b

theorem SlotChange.onNode_eq (c : SlotChange) (key : String) (x : α) :
    c.onNode key x = TreeNode.mapAttributes (c.onBag key) x := by
  cases c <;> rfl

theorem TreeNode.value_setDocComment (x : α) (c : Comment) :
    (setDocComment x c).value =
      mapAttributes (·.modifyD Key.comments (.comments []) (Value.documented c)) x := by
  have hvalue : (setDocComment x c).value = setAttribute x Key.comments
      (.comments (Comment.beforeDoc (documentedComments x).value ++ [c.asDoc])) := rfl
  rw [hvalue, setAttribute, mapAttributes, mapAttributes, Bag.modifyD, Bag.getD,
    documentedComments, attribute?]
  cases (attributes x).get? Key.comments with
  | none => rfl
  | some value => cases value <;> rfl

/-- A step on a node is the same step on its attributes. -/
theorem NodeStep.value_onNode (step : NodeStep) (x : α) :
    (step.onNode x).value = TreeNode.mapAttributes (runBag step.bagSteps) x := by
  cases step with
  | change key c => exact c.onNode_eq key x
  | setAttributes b =>
    have hb : runBag [.clear, .extend b.toList] (TreeNode.attributes x) = b :=
      Bag.ofList_of_perm (List.Perm.refl b.toList)
    exact congrArg (TreeNode.withAttributes x) hb.symm
  | setLine line => rfl
  | setDocComment c => exact TreeNode.value_setDocComment x c

variable [LawfulTreeNode α]

theorem value_runOnNode (steps : List NodeStep) (x : α) :
    (runOnNode steps x).value = TreeNode.mapAttributes (runOnBag steps) x := by
  induction steps generalizing x with
  | nil => exact (LawfulTreeNode.withAttributes_attributes x).symm
  | cons step steps ih =>
    have hrun : runOnBag (step :: steps) = runOnBag steps ∘ runBag step.bagSteps := by
      funext b
      rw [runOnBag, List.flatMap_cons, runBag_append]
      rfl
    rw [hrun, ← TreeNode.mapAttributes_mapAttributes, ← step.value_onNode, ← ih, runOnNode,
      List.foldlM_cons]
    rfl

end Steps

/-! ## Readers -/

namespace TreeNode

variable {α : Type} [TreeNode α]

/-- All that can be read of the attributes of a node is what the attributes `b` answer. -/
structure Shows (x : α) (b : Attributes) : Prop where
  attributes : attributes x = b
  attribute? : ∀ key, attribute? x key = b.get? key
  attributeD : ∀ key default, attributeD x key default = b.getD key default
  hasAttribute : ∀ key, hasAttribute x key = b.contains key
  isAttributeSet : ∀ key, isAttributeSet x key = b.isSet key
  readAttribute : ∀ key, readAttribute x key = b.read key
  removed : ∀ key, (removeAttribute x key).1 = (b.remove key).1

theorem shows_attributes (x : α) : Shows x (TreeNode.attributes x) where
  attributes := rfl
  attribute? _ := rfl
  attributeD _ _ := rfl
  hasAttribute _ := rfl
  isAttributeSet _ := rfl
  readAttribute _ := rfl
  removed _ := rfl

/-! ## What stays -/

/-- Two nodes that agree in all that the contract of nodes shows besides attributes. With the same
attributes they are one node. -/
structure SameBody (x y : α) : Prop where
  nodeType : nodeType y = nodeType x
  subNodeNames : subNodeNames y = subNodeNames x
  subNode? : ∀ field, subNode? y field = subNode? x field
  children : children y = children x
  withAttributes : ∀ b, withAttributes y b = withAttributes x b

theorem sameBody_withAttributes [LawfulTreeNode α] (x : α) (b : Attributes) :
    SameBody x (TreeNode.withAttributes x b) := by
  have hnames := LawfulTreeNode.subNodeNames_withAttributes x b
  have hfield := LawfulTreeNode.subNode?_withAttributes x b
  refine ⟨LawfulTreeNode.nodeType_withAttributes x b, hnames, hfield, ?_,
    LawfulTreeNode.withAttributes_withAttributes x b⟩
  rw [TreeNode.children, TreeNode.children, subNodes, subNodes, hnames, funext hfield]

end TreeNode

namespace Node

/-- The members of the dump of a node without that for its attributes. -/
def bodyMembers (x : Node) : List (String × Json) :=
  ("nodeType", .str (TreeNode.nodeType x)) :: x.jsonFields

/-- The member for attributes in the dump of a node, if there are any. -/
def attributesMember (b : Attributes) : List (String × Json) :=
  if b.isEmpty then [] else [("attributes", b.toJson)]

theorem toJson_eq_append (x : Node) :
    x.toJson = .obj (x.bodyMembers ++ attributesMember (TreeNode.attributes x)) := by
  rw [toJson_eq, nodeMembers, Bag.isEmpty_jsonMembers]
  rfl

theorem attributes_not_mem_bodyMembers (x : Node) :
    "attributes" ∉ x.bodyMembers.map Prod.fst := by
  have hnames : (x.bodyMembers.map Prod.fst ++ ["attributes"]).Nodup := x.nodup_names
  intro hmem
  exact List.disjoint_of_nodup_append hnames hmem (List.mem_singleton_self _)

/-- Two nodes that agree in their variant and in all that is made of them besides attributes: the
kind of a name, the text, what a walk visits between entering and leaving, and the dump, in which
there is a member for attributes just if there are any. -/
structure SameBody (x y : Node) : Prop extends TreeNode.SameBody x y where
  sameType : SameType x y
  ownText? : y.ownText? = x.ownText?
  trace : ∃ inner, x.trace = .enter x :: (inner ++ [.leave x]) ∧
    y.trace = .enter y :: (inner ++ [.leave y])
  labels : labels y.trace = labels x.trace
  toJson : ∃ members, "attributes" ∉ members.map Prod.fst ∧
    x.toJson = .obj (members ++ attributesMember (TreeNode.attributes x)) ∧
    y.toJson = .obj (members ++ attributesMember (TreeNode.attributes y))

theorem ownText?_withAttributes (x : Node) (b : Attributes) :
    (TreeNode.withAttributes x b).ownText? = x.ownText? := by
  cases x <;> rfl

theorem sameBody_withAttributes (x : Node) (b : Attributes) :
    SameBody x (TreeNode.withAttributes x b) := by
  have hbody := TreeNode.sameBody_withAttributes x b
  have htext := x.ownText?_withAttributes b
  have hlabel : (TreeNode.withAttributes x b).label = x.label := by
    rw [label, label, hbody.nodeType, htext]
  have hmembers : (TreeNode.withAttributes x b).bodyMembers = x.bodyMembers := by
    rw [bodyMembers, bodyMembers, jsonFields, jsonFields, hbody.nodeType, hbody.subNodeNames,
      funext hbody.subNode?]
  have htrace := trace_eq (TreeNode.withAttributes x b)
  rw [hbody.children] at htrace
  refine ⟨hbody, sameType_of_nodeType_eq hbody.nodeType.symm, htext, ?_, ?_, ?_⟩
  · exact ⟨_, x.trace_eq, htrace⟩
  · rw [htrace, trace_eq x]
    simp only [labels, List.map_cons, List.map_append, List.map_nil, Visit.bracket, hlabel]
  · have hjson := toJson_eq_append (TreeNode.withAttributes x b)
    rw [hmembers] at hjson
    exact ⟨x.bodyMembers, x.attributes_not_mem_bodyMembers, x.toJson_eq_append, hjson⟩

end Node

/-! ## Wrapping -/

section Wrapping

variable {α : Type} [TreeNode α]

/-- A wrapper around nodes of a type that lets their attributes through. -/
structure Wraps (toNode : α → Node) : Prop where
  attributes : ∀ x, TreeNode.attributes (toNode x) = TreeNode.attributes x
  withAttributes : ∀ x b, toNode (TreeNode.withAttributes x b) = TreeNode.withAttributes (toNode x) b

namespace Wraps

variable {toNode : α → Node}

theorem apply_mapAttributes (h : Wraps toNode) (f : Attributes → Attributes) (x : α) :
    toNode (TreeNode.mapAttributes f x) = TreeNode.mapAttributes f (toNode x) := by
  rw [TreeNode.mapAttributes, TreeNode.mapAttributes, h.withAttributes, h.attributes]

theorem map_setDocComment (h : Wraps toNode) (x : α) (c : Comment) :
    toNode <$> TreeNode.setDocComment x c = TreeNode.setDocComment (toNode x) c := by
  have hread : TreeNode.documentedComments (toNode x) = TreeNode.documentedComments x := by
    rw [TreeNode.documentedComments, TreeNode.documentedComments, TreeNode.attribute?,
      TreeNode.attribute?, h.attributes]
  have hset (value : Value) : toNode (TreeNode.setAttribute x Key.comments value) =
      TreeNode.setAttribute (toNode x) Key.comments value := h.apply_mapAttributes _ x
  rw [TreeNode.setDocComment, TreeNode.setDocComment, hread]
  simp only [map_bind, map_pure, hset]

theorem map_onNode (h : Wraps toNode) (step : NodeStep) (x : α) :
    toNode <$> step.onNode x = step.onNode (toNode x) := by
  cases step with
  | change key c =>
    rw [NodeStep.onNode, NodeStep.onNode, map_pure, c.onNode_eq, c.onNode_eq, h.apply_mapAttributes]
  | setAttributes b => rw [NodeStep.onNode, NodeStep.onNode, map_pure, h.withAttributes]
  | setLine line =>
    have hset : toNode (TreeNode.setLine x line) = TreeNode.setLine (toNode x) line :=
      h.apply_mapAttributes (·.insert Key.startLine (Value.ofNat line)) x
    rw [NodeStep.onNode, NodeStep.onNode, map_pure, hset]
  | setDocComment c => exact h.map_setDocComment x c

theorem map_runOnNode (h : Wraps toNode) (steps : List NodeStep) (x : α) :
    toNode <$> runOnNode steps x = runOnNode steps (toNode x) := by
  induction steps generalizing x with
  | nil => rfl
  | cons step steps ih =>
    calc toNode <$> runOnNode (step :: steps) x
        = step.onNode x >>= fun y => toNode <$> runOnNode steps y := by
          rw [runOnNode, List.foldlM_cons, map_bind]
          rfl
      _ = step.onNode x >>= fun y => runOnNode steps (toNode y) := by
          simp only [ih]
      _ = (toNode <$> step.onNode x) >>= runOnNode steps := by
          rw [bind_map_left]
      _ = runOnNode (step :: steps) (toNode x) := by
          rw [h.map_onNode, runOnNode, List.foldlM_cons]
          rfl

end Wraps

/-- What a run of steps does to a node that `toNode` wraps. The node shows the attributes that the
same run makes of those it had, and its body and that of the wrapped node are as they were. The run
of the wrapped node is the run wrapped, with the same reports. And to assign to what is read under a
key is to set it. -/
structure RunsOnAttributes (toNode : α → Node) (steps : List NodeStep) (x : α) : Prop where
  shows : TreeNode.Shows (runOnNode steps x).value (runOnBag steps (TreeNode.attributes x))
  body : TreeNode.SameBody x (runOnNode steps x).value
  wrapped : toNode <$> runOnNode steps x = runOnNode steps (toNode x)
  wrappedBody : Node.SameBody (toNode x) (toNode (runOnNode steps x).value)
  assigned : ∀ key value, TreeNode.editAttribute x key (fun _ => value) =
    TreeNode.setAttribute x key value

theorem Wraps.runsOnAttributes [LawfulTreeNode α] {toNode : α → Node} (h : Wraps toNode)
    (steps : List NodeStep) (x : α) : RunsOnAttributes toNode steps x := by
  have hrun := value_runOnNode steps x
  refine ⟨?_, ?_, h.map_runOnNode steps x, ?_, ?_⟩
  · have hshows := TreeNode.shows_attributes (runOnNode steps x).value
    rw [hrun, TreeNode.attributes_mapAttributes] at hshows
    rw [hrun]
    exact hshows
  · rw [hrun]
    exact TreeNode.sameBody_withAttributes x _
  · rw [hrun, h.apply_mapAttributes]
    exact Node.sameBody_withAttributes (toNode x) _
  · intro key value
    rfl

end Wrapping

/-- A run of changes on a node of any variant, as it is or wrapped, is a run on its attributes and
touches nothing else. -/
theorem runs_change_attributes_only (steps : List NodeStep) :
    (∀ x : Name, RunsOnAttributes Node.name steps x) ∧
    (∀ x : Interpolated, RunsOnAttributes Node.interpolated steps x) ∧
    (∀ x : StringPart, RunsOnAttributes Node.stringPart steps x) ∧
    (∀ x : InlineHtml, RunsOnAttributes Node.inlineHtml steps x) ∧
    ∀ x : Node, RunsOnAttributes id steps x := by
  have hname : Wraps Node.name := ⟨fun _ => rfl, fun _ _ => rfl⟩
  have hinterpolated : Wraps Node.interpolated := ⟨fun _ => rfl, fun _ _ => rfl⟩
  have hstringPart : Wraps Node.stringPart := ⟨fun _ => rfl, fun _ _ => rfl⟩
  have hinlineHtml : Wraps Node.inlineHtml := ⟨fun _ => rfl, fun _ _ => rfl⟩
  have hid : Wraps (id : Node → Node) := ⟨fun _ => rfl, fun _ _ => rfl⟩
  exact ⟨hname.runsOnAttributes steps, hinterpolated.runsOnAttributes steps,
    hstringPart.runsOnAttributes steps, hinlineHtml.runsOnAttributes steps,
    hid.runsOnAttributes steps⟩

end PhpTree
