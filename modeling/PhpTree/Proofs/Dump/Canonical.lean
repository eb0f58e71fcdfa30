import PhpTree.Dump

/-!
# What a dump does not show

A dump shows a number that is not finite as null and an empty list of comments as an empty list. The
canonical form of a tree has null and an empty list in these places, at every depth: in lists, in
the attributes of names that are stored as values, and in the attributes of children. It has the
same dump.
-/

namespace PhpTree

/-! ## Canonical forms -/

mutual

/-- The canonical form of a value. -/
def Value.canonical : Value → Value
  | .null => .null
  | .bool b => .bool b
  | .int n => .int n
  | .float x => if x.isFinite then .float x else .null
  | .str s => .str s
  | .comments [] => .list []
  | .comments (c :: cs) => .comments (c :: cs)
  | .list items => .list (Value.canonicalList items)
  | .name x => .name x.canonical

/-- The canonical forms of the values in a list. -/
def Value.canonicalList : List Value → List Value
  | [] => []
  | v :: vs => v.canonical :: Value.canonicalList vs

/-- The canonical form of a name. -/
def Name.canonical : Name → Name
  | ⟨text, kind, ⟨entries⟩⟩ => ⟨text, kind, ⟨Value.canonicalEntries entries⟩⟩

/-- Entries with the same keys and the canonical forms of the values. -/
def Value.canonicalEntries : {floor : Option String} → Entries Value floor → Entries Value floor
  | _, .nil => .nil
  | _, .cons key v above rest => .cons key v.canonical above (Value.canonicalEntries rest)

end

/-- The canonical form of attributes. -/
def Bag.canonical (b : Attributes) : Attributes :=
  ⟨Value.canonicalEntries b.entries⟩

mutual

/-- The canonical form of a node. -/
def Node.canonical : Node → Node
  | .name x => .name x.canonical
  | .interpolated ⟨parts, attributes⟩ =>
    .interpolated ⟨Node.canonicalList parts, Bag.canonical attributes⟩
  | .stringPart x => .stringPart ⟨x.value, Bag.canonical x.attributes⟩
  | .inlineHtml x => .inlineHtml ⟨x.value, Bag.canonical x.attributes⟩

/-- The canonical forms of the nodes in a list. -/
def Node.canonicalList : List Node → List Node
  | [] => []
  | x :: xs => x.canonical :: Node.canonicalList xs

end

/-! ## The dump of a canonical form -/

mutual

/-- A value and its canonical form have the same dump. -/
theorem Value.toJson_canonical : ∀ v : Value, v.canonical.toJson = v.toJson
  | .null | .bool _ | .int _ | .str _ | .comments [] | .comments (_ :: _) => rfl
  | .float x => by
    cases hfinite : x.isFinite with
    | true => rw [Value.canonical, if_pos hfinite]
    | false =>
      rw [Value.canonical, hfinite, if_neg Bool.false_ne_true]
      simp only [Value.toJson, Binary64.toJson, hfinite, Bool.false_eq_true, if_false]
  | .list items => congrArg Json.arr (Value.listToJson_canonicalList items)
  | .name x => x.toJson_canonical

theorem Value.listToJson_canonicalList : ∀ vs : List Value,
    Value.listToJson (Value.canonicalList vs) = Value.listToJson vs
  | [] => rfl
  | v :: vs => by
    rw [Value.canonicalList, Value.listToJson, Value.listToJson, v.toJson_canonical,
      Value.listToJson_canonicalList vs]

theorem Name.toJson_canonical : ∀ x : Name, x.canonical.toJson = x.toJson
  | ⟨_, _, ⟨entries⟩⟩ =>
    congrArg (fun ms => Json.obj (nodeMembers _ _ ms)) (Value.entriesToJson_canonicalEntries entries)

theorem Value.entriesToJson_canonicalEntries : ∀ {floor : Option String} (es : Entries Value floor),
    Value.entriesToJson (Value.canonicalEntries es) = Value.entriesToJson es
  | _, .nil => rfl
  | _, .cons _ v _ rest => by
    rw [Value.canonicalEntries, Value.entriesToJson, Value.entriesToJson, v.toJson_canonical,
      Value.entriesToJson_canonicalEntries rest]

end

theorem Bag.jsonMembers_canonical (b : Attributes) :
    Bag.jsonMembers (Bag.canonical b) = Bag.jsonMembers b :=
  Value.entriesToJson_canonicalEntries b.entries

theorem Bag.toJson_canonical (b : Attributes) : Bag.toJson (Bag.canonical b) = Bag.toJson b :=
  congrArg Json.obj b.jsonMembers_canonical

mutual

theorem Node.toJson_canonical : ∀ x : Node, x.canonical.toJson = x.toJson
  | .name x => x.toJson_canonical
  | .interpolated ⟨parts, attributes⟩ => by
    rw [Node.canonical, Node.toJson, Node.toJson, Node.listToJson_canonicalList,
      Bag.jsonMembers_canonical]
  | .stringPart x => by rw [Node.canonical, Node.toJson, Node.toJson, Bag.jsonMembers_canonical]
  | .inlineHtml x => by rw [Node.canonical, Node.toJson, Node.toJson, Bag.jsonMembers_canonical]

theorem Node.listToJson_canonicalList : ∀ xs : List Node,
    Node.listToJson (Node.canonicalList xs) = Node.listToJson xs
  | [] => rfl
  | x :: xs => by
    rw [Node.canonicalList, Node.listToJson, Node.listToJson, x.toJson_canonical,
      Node.listToJson_canonicalList xs]

end

end PhpTree
