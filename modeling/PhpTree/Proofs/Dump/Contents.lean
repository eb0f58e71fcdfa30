import Mathlib.Data.List.Forall2
import PhpTree.Proofs.Dump.WellFormed

/-!
# What is found in dumps

What a dump shows is stated without the dump itself: a value, an attribute or a node is found in a
JSON value if everything that it holds stands in its place there, strings and keys as they are
stored and nothing besides. Members are looked up by their keys, so their order does not matter, and
the same is found in every layout of a dump.
-/

namespace PhpTree

/-! ## Objects -/

/-- The members of an object are these fields and, unless there are none, the attributes, in
whatever order. -/
structure Json.Holds (members fields attributes : List (String × Json)) : Prop where
  keys : (members.map Prod.fst).Perm
    (fields.map Prod.fst ++ if attributes.isEmpty then [] else ["attributes"])
  field : ∀ m ∈ fields, members.lookup m.1 = some m.2
  attributes : attributes.isEmpty = false → members.lookup "attributes" = some (.obj attributes)

/-- A position is found in an object of its coordinates. -/
def Position.FoundIn (p : Position) (x : Json) : Prop :=
  ∃ members, x = .obj members ∧ Json.Holds members
    [("line", .ofNat? p.line), ("filePos", .ofNat? p.filePos), ("tokenPos", .ofNat? p.tokenPos)] []

/-- A comment is found in an object of its kind, its text and its coordinates. -/
def Comment.FoundIn (c : Comment) (x : Json) : Prop :=
  ∃ members, x = .obj members ∧ Json.Holds members
    [("kind", .str c.kind.label), ("text", .str c.text), ("line", .ofNat? c.line),
      ("filePos", .ofNat? c.filePos), ("tokenPos", .ofNat? c.tokenPos)] []

/-! ## Values -/

mutual

/-- All that the value holds is found in the JSON value. -/
def Value.FoundIn : Value → Json → Prop
  | .null, x => x = .null
  | .bool b, x => x = .bool b
  | .int n, x => x = .ofInt n.toInt
  | .float a, x => x = if a.isFinite then .num a.text else .null
  | .str s, x => x = .str s
  | .comments cs, x => ∃ items, x = .arr items ∧ List.Forall₂ Comment.FoundIn cs items
  | .list vs, x => ∃ items, x = .arr items ∧ Value.ListFoundIn vs items
  | .name y, x => y.FoundIn x

/-- The values of a list are found in the items one by one. -/
def Value.ListFoundIn : List Value → List Json → Prop
  | [], [] => True
  | v :: vs, x :: items => v.FoundIn x ∧ Value.ListFoundIn vs items
  | _, _ => False

/-- A name is found in an object of its type, its text and its attributes. -/
def Name.FoundIn : Name → Json → Prop
  | ⟨text, kind, ⟨entries⟩⟩, x => ∃ members attributes, x = .obj members ∧
    Json.Holds members [("nodeType", .str kind.nodeType), ("name", .str text)] attributes ∧
    (attributes.map Prod.fst).Perm (entries.toList.map Prod.fst) ∧
    Value.EntriesFoundIn entries attributes

/-- The value of each entry is found under its key. -/
def Value.EntriesFoundIn : {floor : Option String} → Entries Value floor →
    List (String × Json) → Prop
  | _, .nil, _ => True
  | _, .cons key v _ rest, members =>
    (∃ x, members.lookup key = some x ∧ v.FoundIn x) ∧ Value.EntriesFoundIn rest members

end

/-- Attributes are found in members with their keys and no others, each value under its key. -/
def Bag.FoundIn (b : Attributes) (members : List (String × Json)) : Prop :=
  (members.map Prod.fst).Perm b.keys ∧ Value.EntriesFoundIn b.entries members

/-! ## Nodes -/

mutual

/-- A node is found in an object of its type, its text or its parts, and its attributes. -/
def Node.FoundIn : Node → Json → Prop
  | .name y, x => y.FoundIn x
  | .interpolated ⟨parts, b⟩, x => ∃ members items attributes, x = .obj members ∧
    Json.Holds members [("nodeType", .str "Scalar_Encapsed"), ("parts", .arr items)] attributes ∧
    Node.ListFoundIn parts items ∧ b.FoundIn attributes
  | .stringPart y, x => ∃ members attributes, x = .obj members ∧
    Json.Holds members [("nodeType", .str "Scalar_EncapsedStringPart"), ("value", .str y.value)]
      attributes ∧ y.attributes.FoundIn attributes
  | .inlineHtml y, x => ∃ members attributes, x = .obj members ∧
    Json.Holds members [("nodeType", .str "Stmt_InlineHTML"), ("value", .str y.value)]
      attributes ∧ y.attributes.FoundIn attributes

/-- The nodes of a list are found in the items one by one. -/
def Node.ListFoundIn : List Node → List Json → Prop
  | [], [] => True
  | y :: ys, x :: items => y.FoundIn x ∧ Node.ListFoundIn ys items
  | _, _ => False

end

/-! ## Layouts of dumps -/

namespace Json.Reorders

variable {write : Json → Json}

/-- In a layout of an object every member is found by its key, and there is no other. -/
theorem exists_members (h : Reorders write) {members : List (String × Json)}
    (hnodup : (members.map Prod.fst).Nodup) :
    ∃ members', write (.obj members) = .obj members' ∧ members'.isEmpty = members.isEmpty ∧
      (members'.map Prod.fst).Perm (members.map Prod.fst) ∧
      ∀ m ∈ members, members'.lookup m.1 = some (write m.2) := by
  obtain ⟨members', hwrite, hperm⟩ := h.obj members hnodup
  have hkeys := hperm.map Prod.fst
  rw [List.map_map] at hkeys
  refine ⟨members', hwrite, ?_, hkeys, fun m hm => ?_⟩
  · rw [hperm.isEmpty_eq, List.isEmpty_map]
  · exact lookup_of_mem (hkeys.nodup_iff.2 hnodup) (hperm.mem_iff.2 (List.mem_map_of_mem hm))

/-- In a layout of an object of fields alone, the same fields are held. -/
theorem exists_holds (h : Reorders write) (fields : List (String × Json))
    (hnodup : (fields.map Prod.fst).Nodup) :
    ∃ members, write (.obj fields) = .obj members ∧
      Holds members (fields.map fun m => (m.1, write m.2)) [] := by
  obtain ⟨members, hwrite, -, hkeys, hlookup⟩ := h.exists_members hnodup
  refine ⟨members, hwrite, ?_, ?_, fun hsome => (nomatch hsome)⟩
  · rw [List.map_map, List.isEmpty_nil, if_pos rfl, List.append_nil]
    exact hkeys
  · intro m hm
    obtain ⟨field, hfield, rfl⟩ := List.mem_map.1 hm
    exact hlookup field hfield

/-- In a layout of attributes every member is found by its key. -/
theorem exists_attributes (h : Reorders write) (b : Attributes) :
    ∃ attributes, write (.obj b.jsonMembers) = .obj attributes ∧
      attributes.isEmpty = b.jsonMembers.isEmpty ∧ (attributes.map Prod.fst).Perm b.keys ∧
      ∀ m ∈ b.jsonMembers, attributes.lookup m.1 = some (write m.2) := by
  have hkeys : b.jsonMembers.map Prod.fst = b.keys := Value.keys_entriesToJson b.entries
  rw [← hkeys]
  exact h.exists_members (Value.nodup_entriesToJson b.entries)

/-- In a layout of the object for a node or a stored name, its type, its fields and its attributes
are held. -/
theorem exists_nodeMembers (h : Reorders write) (nodeType : String) (fields : List (String × Json))
    (b : Attributes) (hnames : ("nodeType" :: (fields.map Prod.fst ++ ["attributes"])).Nodup) :
    ∃ members attributes,
      write (.obj (nodeMembers nodeType fields b.jsonMembers)) = .obj members ∧
      Holds members (("nodeType", .str nodeType) :: fields.map fun m => (m.1, write m.2))
        attributes ∧
      (attributes.map Prod.fst).Perm b.keys ∧
      ∀ m ∈ b.jsonMembers, attributes.lookup m.1 = some (write m.2) := by
  obtain ⟨attributes, hattributes, hempty, hkeys, hlookup⟩ := h.exists_attributes b
  obtain ⟨members, hwrite, -, hmemberKeys, hmembers⟩ :=
    h.exists_members (nodup_keys_nodeMembers hnames)
  rw [keys_nodeMembers] at hmemberKeys
  -- The attributes were laid out on their own above, and under their key stands that same object.
  refine ⟨members, attributes, hwrite, ⟨?_, ?_, ?_⟩, hkeys, hlookup⟩
  · rw [List.map_cons, List.map_map, hempty]
    exact hmemberKeys
  · intro m hm
    rcases List.mem_cons.1 hm with rfl | hm
    · rw [← h.str]
      exact hmembers ("nodeType", .str nodeType) List.mem_cons_self
    · obtain ⟨field, hfield, rfl⟩ := List.mem_map.1 hm
      exact hmembers field (List.mem_append_left _ (List.mem_cons_of_mem _ hfield))
  · intro hsome
    rw [hempty] at hsome
    rw [← hattributes]
    refine hmembers ("attributes", .obj b.jsonMembers) (List.mem_append_right _ ?_)
    rw [hsome]
    exact List.mem_singleton_self _

theorem write_ofNat? (h : Reorders write) : ∀ n : Option Nat, write (.ofNat? n) = .ofNat? n
  | none => h.null
  | some n => h.num (toString n)

theorem write_binary64 (h : Reorders write) (a : Binary64) : write a.toJson = a.toJson := by
  unfold Binary64.toJson
  split
  · exact h.num a.text
  · exact h.null

end Json.Reorders

section Layout

variable {write : Json → Json}

theorem Position.foundIn_write (h : Json.Reorders write) (p : Position) :
    p.FoundIn (write p.toJson) := by
  obtain ⟨members, hwrite, hholds⟩ := h.exists_holds
    [("line", .ofNat? p.line), ("filePos", .ofNat? p.filePos), ("tokenPos", .ofNat? p.tokenPos)]
    (show ["line", "filePos", "tokenPos"].Nodup by decide)
  simp only [List.map_cons, List.map_nil, h.write_ofNat?] at hholds
  exact ⟨members, hwrite, hholds⟩

theorem Comment.foundIn_write (h : Json.Reorders write) (c : Comment) :
    c.FoundIn (write c.toJson) := by
  obtain ⟨members, hwrite, hholds⟩ := h.exists_holds
    [("kind", .str c.kind.label), ("text", .str c.text), ("line", .ofNat? c.line),
      ("filePos", .ofNat? c.filePos), ("tokenPos", .ofNat? c.tokenPos)]
    (show ["kind", "text", "line", "filePos", "tokenPos"].Nodup by decide)
  simp only [List.map_cons, List.map_nil, h.str, h.write_ofNat?] at hholds
  exact ⟨members, hwrite, hholds⟩

mutual

/-- Every value is found in every layout of its dump. -/
theorem Value.foundIn_write (h : Json.Reorders write) : ∀ v : Value, v.FoundIn (write v.toJson)
  | .null => h.null
  | .bool b => h.bool b
  | .int n => h.num (toString n.toInt)
  | .float a => h.write_binary64 a
  | .str s => h.str s
  | .comments cs => by
    refine ⟨_, h.arr _, ?_⟩
    rw [List.map_map, List.forall₂_map_right_iff]
    exact List.forall₂_same.2 fun c _ => Comment.foundIn_write h c
  | .list vs => ⟨_, h.arr _, Value.listFoundIn_write h vs⟩
  | .name y => Name.foundIn_write h y

theorem Value.listFoundIn_write (h : Json.Reorders write) : ∀ vs : List Value,
    Value.ListFoundIn vs ((Value.listToJson vs).map write)
  | [] => trivial
  | v :: vs => ⟨Value.foundIn_write h v, Value.listFoundIn_write h vs⟩

theorem Name.foundIn_write (h : Json.Reorders write) : ∀ y : Name, y.FoundIn (write y.toJson)
  | ⟨text, kind, ⟨entries⟩⟩ => by
    obtain ⟨members, attributes, hwrite, hholds, hkeys, hlookup⟩ := h.exists_nodeMembers
      kind.nodeType [("name", .str text)] ⟨entries⟩
      (show ["nodeType", "name", "attributes"].Nodup by decide)
    rw [List.map_singleton, h.str] at hholds
    exact ⟨members, attributes, hwrite, hholds, hkeys,
      Value.entriesFoundIn_write h entries hlookup⟩

theorem Value.entriesFoundIn_write (h : Json.Reorders write) :
    ∀ {floor : Option String} (es : Entries Value floor) {members : List (String × Json)},
    (∀ m ∈ Value.entriesToJson es, members.lookup m.1 = some (write m.2)) →
      Value.EntriesFoundIn es members
  | _, .nil, _, _ => trivial
  | _, .cons key v _ rest, members, hlookup => by
    rw [Value.entriesToJson, List.forall_mem_cons] at hlookup
    exact ⟨⟨_, hlookup.1, Value.foundIn_write h v⟩, Value.entriesFoundIn_write h rest hlookup.2⟩

end

theorem Bag.foundIn_write (h : Json.Reorders write) (b : Attributes) :
    ∃ members, write b.toJson = .obj members ∧ b.FoundIn members := by
  obtain ⟨members, hwrite, -, hkeys, hlookup⟩ := h.exists_attributes b
  exact ⟨members, hwrite, hkeys, Value.entriesFoundIn_write h b.entries hlookup⟩

mutual

/-- Every node is found in every layout of its dump. -/
theorem Node.foundIn_write (h : Json.Reorders write) : ∀ x : Node, x.FoundIn (write x.toJson)
  | .name y => Name.foundIn_write h y
  | .interpolated ⟨parts, b⟩ => by
    obtain ⟨members, attributes, hwrite, hholds, hkeys, hlookup⟩ := h.exists_nodeMembers
      "Scalar_Encapsed" [("parts", .arr (Node.listToJson parts))] b
      (show ["nodeType", "parts", "attributes"].Nodup by decide)
    rw [List.map_singleton, h.arr] at hholds
    exact ⟨members, _, attributes, hwrite, hholds, Node.listFoundIn_write h parts, hkeys,
      Value.entriesFoundIn_write h b.entries hlookup⟩
  | .stringPart y => by
    obtain ⟨members, attributes, hwrite, hholds, hkeys, hlookup⟩ := h.exists_nodeMembers
      "Scalar_EncapsedStringPart" [("value", .str y.value)] y.attributes
      (show ["nodeType", "value", "attributes"].Nodup by decide)
    rw [List.map_singleton, h.str] at hholds
    exact ⟨members, attributes, hwrite, hholds, hkeys,
      Value.entriesFoundIn_write h y.attributes.entries hlookup⟩
  | .inlineHtml y => by
    obtain ⟨members, attributes, hwrite, hholds, hkeys, hlookup⟩ := h.exists_nodeMembers
      "Stmt_InlineHTML" [("value", .str y.value)] y.attributes
      (show ["nodeType", "value", "attributes"].Nodup by decide)
    rw [List.map_singleton, h.str] at hholds
    exact ⟨members, attributes, hwrite, hholds, hkeys,
      Value.entriesFoundIn_write h y.attributes.entries hlookup⟩

theorem Node.listFoundIn_write (h : Json.Reorders write) : ∀ xs : List Node,
    Node.ListFoundIn xs ((Node.listToJson xs).map write)
  | [] => trivial
  | x :: xs => ⟨Node.foundIn_write h x, Node.listFoundIn_write h xs⟩

end

end Layout

end PhpTree
