import PhpTree.Dump
import PhpTree.Proofs.Decimal.Notation
import PhpTree.Proofs.Json.MemberOrder

/-!
# Dumps are well-formed

All numbers in a dump are numbers of the grammar, and no object in it has a key twice: the fields of
a node have names of their own, and the keys of attributes ascend.
-/

namespace PhpTree

namespace Json

/-- A value that can be written without loss. -/
structure WellFormed (x : Json) : Prop where
  numbersValid : x.NumbersValid
  keysDistinct : x.KeysDistinct

theorem wellFormed_null : WellFormed .null :=
  ⟨trivial, trivial⟩

theorem wellFormed_bool (b : Bool) : WellFormed (.bool b) :=
  ⟨trivial, trivial⟩

theorem wellFormed_str (s : String) : WellFormed (.str s) :=
  ⟨trivial, trivial⟩

theorem wellFormed_arr {xs : List Json} (h : ∀ x ∈ xs, x.WellFormed) : WellFormed (.arr xs) :=
  ⟨itemsValid_iff.2 fun x hx => (h x hx).numbersValid,
    itemKeysSatisfy_iff.2 fun x hx => (h x hx).keysDistinct⟩

theorem wellFormed_obj {ms : List (String × Json)} (hkeys : (ms.map Prod.fst).Nodup)
    (h : ∀ m ∈ ms, m.2.WellFormed) : WellFormed (.obj ms) :=
  ⟨membersValid_iff.2 fun m hm => (h m hm).numbersValid,
    hkeys, memberKeysSatisfy_iff.2 fun m hm => (h m hm).keysDistinct⟩

theorem wellFormed_ofInt (n : Int) : WellFormed (ofInt n) :=
  ⟨number_int n, trivial⟩

theorem wellFormed_ofNat? : ∀ n : Option Nat, WellFormed (ofNat? n)
  | none => wellFormed_null
  | some n => ⟨number_nat n, trivial⟩

end Json

open Json

/-! ## Places and comments -/

theorem Position.wellFormed_toJson (p : Position) : p.toJson.WellFormed := by
  refine wellFormed_obj (show ["line", "filePos", "tokenPos"].Nodup by decide) ?_
  simp only [List.forall_mem_cons]
  exact ⟨wellFormed_ofNat? _, wellFormed_ofNat? _, wellFormed_ofNat? _, List.forall_mem_nil _⟩

theorem Comment.wellFormed_toJson (c : Comment) : c.toJson.WellFormed := by
  refine wellFormed_obj (show ["kind", "text", "line", "filePos", "tokenPos"].Nodup by decide) ?_
  simp only [List.forall_mem_cons]
  exact ⟨wellFormed_str _, wellFormed_str _, wellFormed_ofNat? _, wellFormed_ofNat? _,
    wellFormed_ofNat? _, List.forall_mem_nil _⟩

/-! ## Values -/

theorem Binary64.wellFormed_toJson (x : Binary64) : x.toJson.WellFormed := by
  unfold toJson
  split
  · exact ⟨x.number_text, trivial⟩
  · exact wellFormed_null

theorem Value.keys_entriesToJson {floor : Option String} (es : Entries Value floor) :
    (entriesToJson es).map Prod.fst = es.toList.map Prod.fst := by
  induction es with
  | nil => rfl
  | cons key _ _ rest ih => exact congrArg (key :: ·) ih

theorem Value.pairwise_entriesToJson {floor : Option String} (es : Entries Value floor) :
    (entriesToJson es).Pairwise fun a b => a.1 < b.1 := by
  have h : (es.toList.map Prod.fst).Pairwise (· < ·) := List.pairwise_map.2 es.pairwise_toList
  rw [← keys_entriesToJson] at h
  exact List.pairwise_map.1 h

theorem Value.nodup_entriesToJson {floor : Option String} (es : Entries Value floor) :
    ((entriesToJson es).map Prod.fst).Nodup :=
  List.pairwise_map.2 ((pairwise_entriesToJson es).imp String.ne_of_lt)

theorem keys_nodeMembers (nodeType : String) (fields attributes : List (String × Json)) :
    (nodeMembers nodeType fields attributes).map Prod.fst =
      "nodeType" :: (fields.map Prod.fst ++ if attributes.isEmpty then [] else ["attributes"]) := by
  unfold nodeMembers
  split <;> simp

/-- The keys of the dump of a node are distinct when its fields have names of their own. -/
theorem nodup_keys_nodeMembers {nodeType : String} {fields attributes : List (String × Json)}
    (hnames : ("nodeType" :: (fields.map Prod.fst ++ ["attributes"])).Nodup) :
    ((nodeMembers nodeType fields attributes).map Prod.fst).Nodup := by
  rw [keys_nodeMembers]
  split
  · refine hnames.sublist (List.Sublist.cons_cons _ ?_)
    rw [List.append_nil]
    exact List.sublist_append_left _ _
  · exact hnames

/-- Fields with names of their own and attributes make a well-formed object. -/
theorem wellFormed_nodeMembers {nodeType : String} {fields attributes : List (String × Json)}
    (hnames : ("nodeType" :: (fields.map Prod.fst ++ ["attributes"])).Nodup)
    (hfields : ∀ m ∈ fields, m.2.WellFormed) (hattributes : WellFormed (.obj attributes)) :
    WellFormed (.obj (nodeMembers nodeType fields attributes)) := by
  refine wellFormed_obj (nodup_keys_nodeMembers hnames) ?_
  intro m hm
  rw [nodeMembers, List.mem_append, List.mem_cons] at hm
  rcases hm with (rfl | hm) | hm
  · exact wellFormed_str nodeType
  · exact hfields m hm
  · split at hm
    · exact absurd hm List.not_mem_nil
    · rw [List.mem_singleton.1 hm]
      exact hattributes

mutual

theorem Value.wellFormed_toJson : ∀ v : Value, v.toJson.WellFormed
  | .null => wellFormed_null
  | .bool b => wellFormed_bool b
  | .int n => wellFormed_ofInt n.toInt
  | .float x => x.wellFormed_toJson
  | .str s => wellFormed_str s
  | .comments cs => wellFormed_arr fun x hx => by
    obtain ⟨c, _, rfl⟩ := List.mem_map.1 hx
    exact c.wellFormed_toJson
  | .list items => wellFormed_arr (Value.wellFormed_listToJson items)
  | .name x => x.wellFormed_toJson

theorem Value.wellFormed_listToJson : ∀ vs : List Value, ∀ x ∈ Value.listToJson vs, x.WellFormed
  | [], _, hx => absurd hx List.not_mem_nil
  | v :: vs, x, hx => by
    rcases List.mem_cons.1 hx with rfl | hx
    · exact v.wellFormed_toJson
    · exact Value.wellFormed_listToJson vs x hx

theorem Name.wellFormed_toJson : ∀ x : Name, x.toJson.WellFormed
  | ⟨text, _, ⟨entries⟩⟩ => by
    refine wellFormed_nodeMembers (show ["nodeType", "name", "attributes"].Nodup by decide) ?_
      (wellFormed_obj (Value.nodup_entriesToJson entries) (Value.wellFormed_entriesToJson entries))
    exact List.forall_mem_singleton.2 (wellFormed_str text)

theorem Value.wellFormed_entriesToJson : ∀ {floor : Option String} (es : Entries Value floor),
    ∀ m ∈ Value.entriesToJson es, m.2.WellFormed
  | _, .nil, _, hm => absurd hm List.not_mem_nil
  | _, .cons _ v _ rest, m, hm => by
    rcases List.mem_cons.1 hm with rfl | hm
    · exact v.wellFormed_toJson
    · exact Value.wellFormed_entriesToJson rest m hm

end

theorem Bag.wellFormed_toJson (b : Attributes) : (Bag.toJson b).WellFormed :=
  wellFormed_obj (Value.nodup_entriesToJson b.entries) (Value.wellFormed_entriesToJson b.entries)

/-! ## Nodes -/

mutual

theorem Node.wellFormed_toJson : ∀ x : Node, x.toJson.WellFormed
  | .name x => x.wellFormed_toJson
  | .interpolated ⟨parts, attributes⟩ => by
    refine wellFormed_nodeMembers (show ["nodeType", "parts", "attributes"].Nodup by decide) ?_
      (Bag.wellFormed_toJson attributes)
    exact List.forall_mem_singleton.2 (wellFormed_arr (Node.wellFormed_listToJson parts))
  | .stringPart x => by
    refine wellFormed_nodeMembers (show ["nodeType", "value", "attributes"].Nodup by decide) ?_
      (Bag.wellFormed_toJson x.attributes)
    exact List.forall_mem_singleton.2 (wellFormed_str x.value)
  | .inlineHtml x => by
    refine wellFormed_nodeMembers (show ["nodeType", "value", "attributes"].Nodup by decide) ?_
      (Bag.wellFormed_toJson x.attributes)
    exact List.forall_mem_singleton.2 (wellFormed_str x.value)

theorem Node.wellFormed_listToJson : ∀ xs : List Node, ∀ x ∈ Node.listToJson xs, x.WellFormed
  | [], _, hx => absurd hx List.not_mem_nil
  | y :: ys, x, hx => by
    rcases List.mem_cons.1 hx with rfl | hx
    · exact y.wellFormed_toJson
    · exact Node.wellFormed_listToJson ys x hx

end

theorem SubNode.wellFormed_toJson : ∀ x : SubNode, x.toJson.WellFormed
  | .node x => x.wellFormed_toJson
  | .nodes xs => wellFormed_arr (Node.wellFormed_listToJson xs)
  | .str s => wellFormed_str s

end PhpTree
