import PhpTree.Proofs.Dump.Lossless
import PhpTree.Proofs.Traversal.Trace

/-!
# Dumps follow walks

The dump of a tree and a walk through it both ask each node for its structural fields by name, and
both pass over a field that the node does not show. No field is missing, so they meet the same
nodes: the objects for nodes in a dump, in depth-first order and without those stored in attributes,
are the dumps of the nodes that a walk enters, one for each and in the same order. The order of
members makes no difference, because fields are found by their names.
-/

namespace PhpTree

/-! ## Objects for nodes -/

/-- The structural fields of the nodes of a type, in the order they are declared. -/
def declaredFields : String → List String
  | "Name" | "Name_FullyQualified" | "Name_Relative" => ["name"]
  | "Scalar_Encapsed" => ["parts"]
  | "Scalar_EncapsedStringPart" | "Stmt_InlineHTML" => ["value"]
  | _ => []

namespace Json

/-- The structural fields of the node that an object with these members stands for. -/
def fieldsOf (members : List (String × Json)) : List String :=
  match members.lookup "nodeType" with
  | some (.str nodeType) => declaredFields nodeType
  | _ => []

mutual

/-- The objects for nodes in a dump, depth first: each object before those in its fields. Only the
structural fields are entered, and so no attributes are. -/
def nodeObjects : Json → List Json
  | .obj members =>
    .obj members :: (fieldsOf members).flatMap fun field => fieldObjects members field
  | .arr items => itemObjects items
  | .null | .bool _ | .num _ | .str _ => []

/-- The objects for nodes in items. -/
def itemObjects : List Json → List Json
  | [] => []
  | x :: xs => x.nodeObjects ++ itemObjects xs

/-- The objects for nodes in the member of this name. -/
def fieldObjects : List (String × Json) → String → List Json
  | [], _ => []
  | (key, x) :: rest, field => if key = field then x.nodeObjects else fieldObjects rest field

end

theorem itemObjects_eq_flatMap (xs : List Json) : itemObjects xs = xs.flatMap nodeObjects := by
  induction xs with
  | nil => rfl
  | cons x xs ih => rw [itemObjects, List.flatMap_cons, ih]

theorem fieldObjects_of_mem {members : List (String × Json)} {key : String} {x : Json}
    (hnodup : (members.map Prod.fst).Nodup) (h : (key, x) ∈ members) :
    fieldObjects members key = x.nodeObjects := by
  have hlookup := lookup_of_mem hnodup h
  clear h hnodup
  induction members with
  | nil => cases hlookup
  | cons m members ih =>
    rw [List.lookup_cons] at hlookup
    rw [fieldObjects]
    cases heq : key == m.1 with
    | true =>
      rw [heq] at hlookup
      rw [if_pos (beq_iff_eq.1 heq).symm, Option.some.inj hlookup]
    | false =>
      rw [heq] at hlookup
      rw [if_neg (Ne.symm (beq_eq_false_iff_ne.1 heq)), ih hlookup]

end Json

/-! ## Fields -/

/-- A field is shown just if the node names it. -/
theorem Node.isSome_subNode?_iff {x : Node} {field : String} :
    (TreeNode.subNode? x field).isSome = true ↔ field ∈ TreeNode.subNodeNames x := by
  cases x <;> simp [TreeNode.subNode?, TreeNode.subNodeNames]

theorem Node.declaredFields_nodeType (x : Node) :
    declaredFields (TreeNode.nodeType x) = TreeNode.subNodeNames x := by
  cases x with
  | name x =>
    obtain ⟨_, kind, _⟩ := x
    cases kind <;> rfl
  | _ => rfl

/-- What a node holds in its fields is its own text, or else its children. -/
theorem Node.subNode?_eq {x : Node} {field : String} (h : field ∈ TreeNode.subNodeNames x) :
    TreeNode.subNode? x field =
      some (x.ownText?.elim (.nodes (TreeNode.children x)) SubNode.str) := by
  rw [children_eq_parts]
  cases x <;> exact if_pos (List.mem_singleton.1 h)

theorem Node.keys_jsonFields (x : Node) :
    x.jsonFields.map Prod.fst = TreeNode.subNodeNames x := by
  cases x <;> rfl

theorem Node.listToJson_eq_map (xs : List Node) : listToJson xs = xs.map toJson := by
  induction xs with
  | nil => rfl
  | cons x xs ih => rw [listToJson, ih, List.map_cons]

/-- What a dump shows of the content of a field: a text as it is, and an entry for each node. -/
def SubNode.shown (write : Json → Json) : SubNode → Json
  | .node x => write x.toJson
  | .nodes xs => .arr (xs.map fun x => write x.toJson)
  | .str s => .str s

namespace Json.Reorders

variable {write : Json → Json}

theorem write_subNode (h : Reorders write) (content : SubNode) :
    write content.toJson = content.shown write := by
  cases content with
  | node x => rfl
  | nodes xs =>
    rw [SubNode.toJson, Node.listToJson_eq_map, h.arr, List.map_map]
    rfl
  | str s => exact h.str s

end Json.Reorders

theorem SubNode.nodeObjects_shown (write : Json → Json) (content : SubNode) :
    (content.shown write).nodeObjects =
      content.toNodes.flatMap fun x => (write x.toJson).nodeObjects := by
  cases content with
  | node x => rw [shown, toNodes, List.flatMap_singleton]
  | nodes xs =>
    rw [shown, Json.nodeObjects, Json.itemObjects_eq_flatMap, List.flatMap_map]
    rfl
  | str s => rfl

/-! ## The object for a node -/

namespace Node

/-- The members say what there is to say of the node: its type, the content of each of its fields,
which is its text or has an entry for each of its children, and its attributes if there are any.
There is no other member, and none twice. -/
structure ShownBy (x : Node) (write : Json → Json) (members : List (String × Json)) : Prop where
  keys : (members.map Prod.fst).Perm ("nodeType" :: (TreeNode.subNodeNames x ++
    if (TreeNode.attributes x).isEmpty then [] else ["attributes"]))
  keys_nodup : (members.map Prod.fst).Nodup
  nodeType : ("nodeType", .str (TreeNode.nodeType x)) ∈ members
  field : ∀ name ∈ TreeNode.subNodeNames x, ∃ content, TreeNode.subNode? x name = some content ∧
    (name, content.shown write) ∈ members
  text : ∀ name ∈ TreeNode.subNodeNames x, ∀ s, x.ownText? = some s → (name, .str s) ∈ members
  children : ∀ name ∈ TreeNode.subNodeNames x, x.ownText? = none →
    (name, .arr ((TreeNode.children x).map fun y => write y.toJson)) ∈ members
  attributes : (TreeNode.attributes x).isEmpty = false →
    ("attributes", write (TreeNode.attributes x).toJson) ∈ members

theorem mem_jsonFields {x : Node} {name : String} {content : SubNode}
    (hname : name ∈ TreeNode.subNodeNames x) (hcontent : TreeNode.subNode? x name = some content) :
    (name, content.toJson) ∈ x.jsonFields :=
  List.mem_filterMap.2 ⟨name, hname, by rw [hcontent, Option.map_some]⟩

/-- The object for a node shows the node, in every layout. -/
theorem exists_shownBy {write : Json → Json} (h : Json.Reorders write) (x : Node) :
    ∃ members, write x.toJson = .obj members ∧ x.ShownBy write members := by
  have hkeys : (nodeMembers (TreeNode.nodeType x) x.jsonFields
      (TreeNode.attributes x).jsonMembers).map Prod.fst =
        "nodeType" :: (TreeNode.subNodeNames x ++
          if (TreeNode.attributes x).isEmpty then [] else ["attributes"]) := by
    rw [keys_nodeMembers, keys_jsonFields, Bag.isEmpty_jsonMembers]
  have hnodup : ((nodeMembers (TreeNode.nodeType x) x.jsonFields
      (TreeNode.attributes x).jsonMembers).map Prod.fst).Nodup :=
    nodup_keys_nodeMembers x.nodup_names
  obtain ⟨members, hwrite, hperm⟩ := h.obj _ hnodup
  rw [← toJson_eq] at hwrite
  have hkeysPerm := hperm.map Prod.fst
  rw [List.map_map] at hkeysPerm
  have hmem {key : String} {y : Json} (hy : (key, y) ∈ nodeMembers (TreeNode.nodeType x)
      x.jsonFields (TreeNode.attributes x).jsonMembers) : (key, write y) ∈ members :=
    hperm.mem_iff.2 (List.mem_map_of_mem hy)
  have hfield {name : String} {content : SubNode} (hname : name ∈ TreeNode.subNodeNames x)
      (hcontent : TreeNode.subNode? x name = some content) :
      (name, content.shown write) ∈ members := by
    rw [← h.write_subNode]
    apply hmem
    rw [nodeMembers, List.mem_append, List.mem_cons]
    exact Or.inl (Or.inr (mem_jsonFields hname hcontent))
  refine ⟨members, hwrite, hkeys ▸ hkeysPerm, hkeysPerm.nodup_iff.2 hnodup, ?_, ?_, ?_, ?_, ?_⟩
  · rw [← h.str]
    exact hmem List.mem_cons_self
  · intro name hname
    exact ⟨_, subNode?_eq hname, hfield hname (subNode?_eq hname)⟩
  · intro name hname s hs
    have hcontent := subNode?_eq hname
    rw [hs, Option.elim_some] at hcontent
    exact hfield hname hcontent
  · intro name hname hnone
    have hcontent := subNode?_eq hname
    rw [hnone, Option.elim_none] at hcontent
    exact hfield hname hcontent
  · intro hsome
    apply hmem
    rw [nodeMembers, Bag.isEmpty_jsonMembers, hsome, List.mem_append]
    exact Or.inr (List.mem_singleton_self _)

/-! ## Dumps and walks -/

/-- The nodes that folding over a tree meets, in order. -/
def visited (x : Node) : List Node :=
  x.foldPreorder (fun y ys => ys ++ [y]) []

theorem visited_eq_filterMap (x : Node) : x.visited = x.trace.filterMap Visit.entered? := by
  rw [visited, foldPreorder_eq_foldl, List.foldl_append_eq_append, List.nil_append]
  exact List.flatMap_singleton' _

/-- A node is visited first, and then all that is visited from its children. -/
theorem visited_eq (x : Node) : x.visited = x :: (TreeNode.children x).flatMap visited := by
  have hchildren : (TreeNode.children x).flatMap visited =
      ((TreeNode.children x).flatMap trace).filterMap Visit.entered? := by
    rw [List.filterMap_flatMap]
    exact List.flatMap_congr fun y _ => y.visited_eq_filterMap
  rw [visited_eq_filterMap, trace_eq, hchildren]
  simp [List.filterMap_append, Visit.entered?]

theorem nodeObjects_write {write : Json → Json} (h : Json.Reorders write) (x : Node) :
    (write x.toJson).nodeObjects = write x.toJson ::
      (TreeNode.children x).flatMap fun y => (write y.toJson).nodeObjects := by
  obtain ⟨members, hwrite, hshown⟩ := x.exists_shownBy h
  have hfields : Json.fieldsOf members = TreeNode.subNodeNames x := by
    rw [Json.fieldsOf, Json.lookup_of_mem hshown.keys_nodup hshown.nodeType]
    exact x.declaredFields_nodeType
  have hobjects : ∀ name ∈ TreeNode.subNodeNames x, Json.fieldObjects members name =
      (TreeNode.subNode? x name).toList.flatMap fun content =>
        content.toNodes.flatMap fun y => (write y.toJson).nodeObjects := by
    intro name hname
    obtain ⟨content, hcontent, hmem⟩ := hshown.field name hname
    rw [Json.fieldObjects_of_mem hshown.keys_nodup hmem, content.nodeObjects_shown, hcontent,
      Option.toList_some, List.flatMap_singleton]
  rw [hwrite, Json.nodeObjects, hfields, List.flatMap_congr hobjects, TreeNode.children,
    TreeNode.subNodes, List.filterMap_eq_flatMap_toList, List.flatMap_assoc, List.flatMap_assoc]

theorem nodeObjects_eq_map_visited {write : Json → Json} (h : Json.Reorders write) (x : Node) :
    (write x.toJson).nodeObjects = x.visited.map fun y => write y.toJson := by
  induction x using inductionOnChildren with
  | step x ih =>
    rw [nodeObjects_write h, visited_eq, List.map_cons, List.map_flatMap, List.flatMap_congr ih]

/-- The dump of a tree, in a layout, has one object for each node that a walk enters, in the same
order, and each of them shows its node. -/
structure DumpFollowsWalk (x : Node) (write : Json → Json) : Prop where
  objects : (write x.toJson).nodeObjects = x.visited.map fun y => write y.toJson
  shown : ∀ y ∈ x.visited, ∃ members, write y.toJson = .obj members ∧ y.ShownBy write members

theorem dumpFollowsWalk {write : Json → Json} (h : Json.Reorders write) (x : Node) :
    x.DumpFollowsWalk write where
  objects := x.nodeObjects_eq_map_visited h
  shown y _ := y.exists_shownBy h

end Node

/-- The dump of a tree and a walk through it describe the same tree, with the members in the order
they are declared and with all members sorted. The objects for nodes are found through the fields
that nodes of their type declare, which are those that the node itself names; and what a node names
as a field it shows, and nothing else, so that neither the dump nor the walk drops one. -/
theorem dump_follows_walk :
    (∀ x : Node, x.DumpFollowsWalk id ∧ x.DumpFollowsWalk Json.sorted) ∧
    (∀ x : Node, declaredFields (TreeNode.nodeType x) = TreeNode.subNodeNames x) ∧
    (∀ (x : Node) (field : String),
      (TreeNode.subNode? x field).isSome = true ↔ field ∈ TreeNode.subNodeNames x) := by
  refine ⟨fun x => ⟨?_, ?_⟩, Node.declaredFields_nodeType, fun x field => Node.isSome_subNode?_iff⟩
  · exact x.dumpFollowsWalk Json.reorders_id
  · exact x.dumpFollowsWalk Json.reorders_sorted

end PhpTree
