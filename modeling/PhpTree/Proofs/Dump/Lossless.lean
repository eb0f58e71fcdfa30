import Mathlib.Tactic.TFAE
import PhpTree.Proofs.Dump.Canonical
import PhpTree.Proofs.Dump.Texts
import PhpTree.Proofs.Node.Types

/-!
# Dumps lose nothing else

The canonical form of a tree can be told from either text of its dump. Values are stored without a
tag, so the shape of a value is recovered from the shape of what is written: an object is a name, a
literal is an integer or a number with a point or an exponent, and an array with something in it
holds comments or values. A comment is an object too, but with other keys than a name.
-/

namespace PhpTree

open Json

/-! ## Comments -/

theorem sorted_ofNat? (n : Option Nat) : (ofNat? n).sorted = ofNat? n := by
  cases n <;> rfl

theorem ofNat?_injective : Function.Injective ofNat?
  | none, none, _ => rfl
  | none, some _, h => by cases h
  | some _, none, h => by cases h
  | some _, some _, h => congrArg some (toString_nat_injective (num.inj h))

theorem CommentKind.label_injective : Function.Injective label := by
  intro a b h
  cases a <;> cases b <;> first | rfl | exact absurd h (by decide)

/-- The members of the dump of a comment. -/
def Comment.members (c : Comment) : List (String × Json) :=
  [("kind", .str c.kind.label), ("text", .str c.text), ("line", ofNat? c.line),
    ("filePos", ofNat? c.filePos), ("tokenPos", ofNat? c.tokenPos)]

theorem Comment.nodup_members (c : Comment) : (c.members.map Prod.fst).Nodup :=
  c.wellFormed_toJson.keysDistinct.1

theorem Comment.sorted_toJson_injective {c d : Comment} (h : c.toJson.sorted = d.toJson.sorted) :
    c = d := by
  have hmembers : sortedMembers c.members = sortedMembers d.members :=
    sortedMembers_eq_of_sorted_eq d.nodup_members rfl h
  simp only [members, sortedMembers, sorted_ofNat?, Json.sorted, List.cons.injEq, Prod.mk.injEq,
    true_and, and_true, str.injEq] at hmembers
  obtain ⟨hkind, htext, hline, hfilePos, htokenPos⟩ := hmembers
  cases c
  cases d
  rw [Comment.mk.injEq]
  exact ⟨CommentKind.label_injective hkind, htext, ofNat?_injective hline,
    ofNat?_injective hfilePos, ofNat?_injective htokenPos⟩

theorem Comment.sorted_map_toJson_injective : ∀ {cs ds : List Comment},
    sortedItems (cs.map toJson) = sortedItems (ds.map toJson) → cs = ds
  | [], [], _ => rfl
  | [], _ :: _, h => by cases h
  | _ :: _, [], h => by cases h
  | c :: cs, d :: ds, h => by
    rw [List.map_cons, List.map_cons, sortedItems, sortedItems, List.cons.injEq] at h
    rw [sorted_toJson_injective h.1, sorted_map_toJson_injective h.2]

/-! ## Objects for nodes -/

section NodeMembers

variable {t t' : String} {fs fs' as as' : List (String × Json)}

/-- The type of a node can be told from its object. -/
theorem nodeType_eq_of_sorted_eq
    (hnames : ("nodeType" :: (fs.map Prod.fst ++ ["attributes"])).Nodup)
    (hnames' : ("nodeType" :: (fs'.map Prod.fst ++ ["attributes"])).Nodup)
    (h : (obj (nodeMembers t fs as)).sorted = (obj (nodeMembers t' fs' as')).sorted) : t = t' := by
  have hnodup : ((nodeMembers t' fs' as').map Prod.fst).Nodup := nodup_keys_nodeMembers hnames'
  have hperm := perm_of_sorted_eq (nodup_keys_nodeMembers hnames) hnodup h
  have hmem : ("nodeType", Json.str t) ∈ sortedMembers (nodeMembers t' fs' as') :=
    hperm.subset List.mem_cons_self
  rw [← keys_sortedMembers] at hnodup
  rcases List.mem_cons.1 hmem with heq | hmem
  · exact str.inj (Prod.mk.inj heq).2
  · exact absurd (List.mem_map_of_mem hmem) (List.nodup_cons.1 hnodup).1

/-- The fields of a node, given their names, and its attributes can be told from its object. -/
theorem nodeMembers_inj (hnames : ("nodeType" :: (fs'.map Prod.fst ++ ["attributes"])).Nodup)
    (hfields : fs.map Prod.fst = fs'.map Prod.fst)
    (has : as.Pairwise fun a b => a.1 < b.1) (has' : as'.Pairwise fun a b => a.1 < b.1)
    (h : (obj (nodeMembers t fs as)).sorted = (obj (nodeMembers t' fs' as')).sorted) :
    sortedMembers fs = sortedMembers fs' ∧ sortedMembers as = sortedMembers as' := by
  have hnodup : ((nodeMembers t' fs' as').map Prod.fst).Nodup := nodup_keys_nodeMembers hnames
  have hkeysPerm := keys_perm_of_sorted_eq (nodup_keys_nodeMembers (hfields ▸ hnames)) hnodup h
  -- Attributes are written if there are any, so both objects have them or none has.
  have hempty : as.isEmpty = as'.isEmpty := by
    have hlength := hkeysPerm.length_eq
    rw [keys_nodeMembers, keys_nodeMembers, hfields] at hlength
    cases has : as.isEmpty <;> cases has' : as'.isEmpty <;> simp [has, has'] at hlength ⊢
  have hkeys : (nodeMembers t fs as).map Prod.fst = (nodeMembers t' fs' as').map Prod.fst := by
    rw [keys_nodeMembers, keys_nodeMembers, hempty, hfields]
  have hmembers := sortedMembers_eq_of_sorted_eq hnodup hkeys h
  rw [nodeMembers, nodeMembers, sortedMembers_append, sortedMembers_append, sortedMembers,
    sortedMembers, List.cons_append, List.cons_append, List.cons.injEq] at hmembers
  have hlength : (sortedMembers fs).length = (sortedMembers fs').length := by
    have hmap := congrArg List.length hfields
    rwa [List.length_map, List.length_map, ← length_sortedMembers fs,
      ← length_sortedMembers fs'] at hmap
  obtain ⟨hfs, hattributes⟩ := List.append_inj hmembers.2 hlength
  refine ⟨hfs, ?_⟩
  cases hnone : as'.isEmpty with
  | true =>
    rw [hnone] at hempty
    rw [List.isEmpty_iff.1 hempty, List.isEmpty_iff.1 hnone]
  | false =>
    rw [hempty, hnone] at hattributes
    simp only [Bool.false_eq_true, if_false, sortedMembers, List.cons.injEq, Prod.mk.injEq,
      true_and, and_true] at hattributes
    rw [sorted_obj has, sorted_obj has'] at hattributes
    exact obj.inj hattributes

end NodeMembers

/-! ## Names and comments -/

theorem Name.toJson_eq (x : Name) : x.toJson =
    .obj (nodeMembers x.kind.nodeType [("name", .str x.text)] (Bag.jsonMembers x.attributes)) := by
  obtain ⟨_, _, ⟨_⟩⟩ := x
  rfl

theorem Name.nodup_names (text : String) :
    ("nodeType" :: ([("name", Json.str text)].map Prod.fst ++ ["attributes"])).Nodup :=
  show ["nodeType", "name", "attributes"].Nodup by decide

theorem Bag.pairwise_jsonMembers (b : Attributes) :
    (Bag.jsonMembers b).Pairwise fun m n => m.1 < n.1 :=
  Value.pairwise_entriesToJson b.entries

theorem Bag.isEmpty_jsonMembers : ∀ b : Attributes, b.jsonMembers.isEmpty = b.isEmpty
  | ⟨.nil⟩ => rfl
  | ⟨.cons ..⟩ => rfl

/-- The object for a name has other keys than the object for a comment. -/
theorem Name.sorted_toJson_ne (x : Name) (c : Comment) : x.toJson.sorted ≠ c.toJson.sorted := by
  intro h
  rw [Name.toJson_eq] at h
  have hnodup : ((nodeMembers x.kind.nodeType [("name", .str x.text)]
      (Bag.jsonMembers x.attributes)).map Prod.fst).Nodup :=
    nodup_keys_nodeMembers (Name.nodup_names x.text)
  have hlength := (keys_perm_of_sorted_eq hnodup c.nodup_members h).length_eq
  rw [keys_nodeMembers] at hlength
  split at hlength <;> simp [Comment.members] at hlength

/-! ## Values -/

/-- The values that are written in each of the shapes of JSON. -/
inductive Value.WrittenAs : Value → Json → Prop
  | null {v : Value} : v.canonical = .null → WrittenAs v .null
  | bool (b : Bool) : WrittenAs (.bool b) (.bool b)
  | int (n : Int64) : WrittenAs (.int n) (.num (toString n.toInt))
  | float {x : Binary64} : x.isFinite = true → WrittenAs (.float x) (.num x.text)
  | str (s : String) : WrittenAs (.str s) (.str s)
  | comments (cs : List Comment) :
      WrittenAs (.comments cs) (.arr (sortedItems (cs.map Comment.toJson)))
  | list (vs : List Value) : WrittenAs (.list vs) (.arr (sortedItems (Value.listToJson vs)))
  | name {x : Name} {members : List (String × Json)} : x.toJson.sorted = .obj members →
      WrittenAs (.name x) (.obj members)

theorem Value.writtenAs (v : Value) : v.WrittenAs v.toJson.sorted := by
  cases v with
  | null => exact .null rfl
  | bool b => exact .bool b
  | int n => exact .int n
  | float x =>
    cases hfinite : x.isFinite with
    | true =>
      rw [Value.toJson, Binary64.toJson, if_pos hfinite]
      exact .float hfinite
    | false =>
      rw [Value.toJson, Binary64.toJson, hfinite, if_neg Bool.false_ne_true]
      exact .null (by rw [Value.canonical, hfinite, if_neg Bool.false_ne_true])
  | str s => exact .str s
  | comments cs => exact .comments cs
  | list vs => exact .list vs
  | name x =>
    rw [Value.toJson, x.toJson_eq, Json.sorted]
    exact .name (by rw [x.toJson_eq, Json.sorted])

theorem Value.canonical_of_writtenAs_null {v : Value} (h : v.WrittenAs .null) :
    v.canonical = .null := by
  cases h with
  | null h => exact h

/-- Comments are written like a list of values only if there are none. -/
theorem Value.eq_nil_of_comments : ∀ {cs : List Comment} {vs : List Value},
    sortedItems (cs.map Comment.toJson) = sortedItems (Value.listToJson vs) → cs = [] ∧ vs = []
  | [], [], _ => ⟨rfl, rfl⟩
  | [], _ :: _, h => by cases h
  | _ :: _, [], h => by cases h
  | c :: cs, v :: vs, h => by
    rw [List.map_cons, Value.listToJson, sortedItems, sortedItems, List.cons.injEq] at h
    have hv := v.writtenAs
    rw [← h.1] at hv
    generalize hj : c.toJson.sorted = j at hv
    cases hv with
    | name hx => exact absurd (hx.trans hj.symm) (Name.sorted_toJson_ne _ c)
    | _ => cases hj

mutual

/-- A value is known from its sorted dump, up to its canonical form. -/
theorem Value.canonical_eq : ∀ {v w : Value}, v.toJson.sorted = w.toJson.sorted →
    v.canonical = w.canonical
  | .null, w, h => by
    have hw := w.writtenAs
    rw [← h] at hw
    exact (Value.canonical_of_writtenAs_null hw).symm
  | .bool b, w, h => by
    have hw := w.writtenAs
    rw [← h, Value.toJson, Json.sorted] at hw
    cases hw
    rfl
  | .int n, w, h => by
    have hw := w.writtenAs
    rw [← h, Value.toJson, ofInt, Json.sorted] at hw
    generalize hliteral : Json.num (toString n.toInt) = j at hw
    cases hw with
    | int m =>
      rw [Int64.toInt_inj.1 (toString_int_injective (num.inj hliteral))]
    | @float x _ => exact absurd (num.inj hliteral).symm (x.text_ne_int n.toInt)
    | _ => cases hliteral
  | .float x, w, h => by
    have hw := w.writtenAs
    rw [← h, Value.toJson, Binary64.toJson] at hw
    cases hfinite : x.isFinite with
    | true =>
      rw [if_pos hfinite, Json.sorted] at hw
      generalize hliteral : Json.num x.text = j at hw
      cases hw with
      | int n => exact absurd (num.inj hliteral) (x.text_ne_int n.toInt)
      | float _ => rw [Binary64.text_injective (num.inj hliteral)]
      | _ => cases hliteral
    | false =>
      rw [hfinite, if_neg Bool.false_ne_true] at hw
      rw [Value.canonical_of_writtenAs_null hw, Value.canonical, hfinite,
        if_neg Bool.false_ne_true]
  | .str s, w, h => by
    have hw := w.writtenAs
    rw [← h, Value.toJson, Json.sorted] at hw
    cases hw
    rfl
  | .comments cs, w, h => by
    have hw := w.writtenAs
    rw [← h, Value.toJson, Json.sorted] at hw
    generalize hitems : Json.arr (sortedItems (cs.map Comment.toJson)) = j at hw
    cases hw with
    | comments ds => rw [Comment.sorted_map_toJson_injective (arr.inj hitems)]
    | list ws =>
      -- Both are empty, and the canonical form makes them one value.
      obtain ⟨rfl, rfl⟩ := Value.eq_nil_of_comments (arr.inj hitems)
      rfl
    | _ => cases hitems
  | .list vs, w, h => by
    have hw := w.writtenAs
    rw [← h, Value.toJson, Json.sorted] at hw
    generalize hitems : Json.arr (sortedItems (Value.listToJson vs)) = j at hw
    cases hw with
    | comments ds =>
      obtain ⟨rfl, rfl⟩ := Value.eq_nil_of_comments (arr.inj hitems).symm
      rfl
    | list ws => rw [Value.canonical, Value.canonical, Value.canonicalList_eq (arr.inj hitems)]
    | _ => cases hitems
  | .name x, w, h => by
    have hw := w.writtenAs
    rw [← h, Value.toJson] at hw
    generalize hx : x.toJson.sorted = j at hw
    cases hw with
    | @name y _ hy => rw [Value.canonical, Value.canonical, Name.canonical_eq (hx.trans hy.symm)]
    | _ =>
      rw [x.toJson_eq, Json.sorted] at hx
      cases hx

theorem Value.canonicalList_eq : ∀ {vs ws : List Value},
    sortedItems (Value.listToJson vs) = sortedItems (Value.listToJson ws) →
      Value.canonicalList vs = Value.canonicalList ws
  | [], [], _ => rfl
  | [], _ :: _, h => by cases h
  | _ :: _, [], h => by cases h
  | v :: vs, w :: ws, h => by
    rw [Value.listToJson, Value.listToJson, sortedItems, sortedItems, List.cons.injEq] at h
    rw [Value.canonicalList, Value.canonicalList, Value.canonical_eq h.1,
      Value.canonicalList_eq h.2]

theorem Name.canonical_eq : ∀ {x y : Name}, x.toJson.sorted = y.toJson.sorted →
    x.canonical = y.canonical
  | ⟨text, kind, ⟨entries⟩⟩, ⟨text', kind', ⟨entries'⟩⟩, h => by
    have hkind := nodeType_eq_of_sorted_eq (Name.nodup_names text) (Name.nodup_names text') h
    have hfields : [("name", Json.str text)].map Prod.fst =
        [("name", Json.str text')].map Prod.fst := rfl
    obtain ⟨htext, hentries⟩ := nodeMembers_inj (Name.nodup_names text') hfields
      (Value.pairwise_entriesToJson entries) (Value.pairwise_entriesToJson entries') h
    cases htext
    rw [Name.canonical, Name.canonical, Value.canonicalEntries_eq hentries,
      NameKind.nodeType_injective hkind]

theorem Value.canonicalEntries_eq : ∀ {floor : Option String} {es es' : Entries Value floor},
    sortedMembers (Value.entriesToJson es) = sortedMembers (Value.entriesToJson es') →
      Value.canonicalEntries es = Value.canonicalEntries es'
  | _, .nil, .nil, _ => rfl
  | _, .nil, .cons .., h => by cases h
  | _, .cons .., .nil, h => by cases h
  | _, .cons key v above rest, .cons key' v' above' rest', h => by
    rw [Value.entriesToJson, Value.entriesToJson, sortedMembers, sortedMembers, List.cons.injEq,
      Prod.mk.injEq] at h
    obtain ⟨⟨rfl, hv⟩, hrest⟩ := h
    rw [Value.canonicalEntries, Value.canonicalEntries, Value.canonical_eq hv,
      Value.canonicalEntries_eq hrest]

end

theorem Bag.canonical_eq {a b : Attributes}
    (h : sortedMembers (Bag.jsonMembers a) = sortedMembers (Bag.jsonMembers b)) :
    Bag.canonical a = Bag.canonical b :=
  congrArg Bag.mk (Value.canonicalEntries_eq h)

theorem Bag.canonical_eq_of_sorted_eq {a b : Attributes}
    (h : (Bag.toJson a).sorted = (Bag.toJson b).sorted) : Bag.canonical a = Bag.canonical b := by
  rw [Bag.toJson, Bag.toJson, sorted_obj a.pairwise_jsonMembers,
    sorted_obj b.pairwise_jsonMembers] at h
  exact Bag.canonical_eq (obj.inj h)

/-! ## Nodes -/

/-- The members for the structural fields of a node. -/
def Node.jsonFields (x : Node) : List (String × Json) :=
  (TreeNode.subNodeNames x).filterMap fun name =>
    (TreeNode.subNode? x name).map fun field => (name, field.toJson)

/-- The dump of a node holds what the contract of nodes offers. -/
theorem Node.toJson_eq (x : Node) : x.toJson =
    .obj (nodeMembers (TreeNode.nodeType x) x.jsonFields
      (Bag.jsonMembers (TreeNode.attributes x))) := by
  cases x with
  | name x => exact x.toJson_eq
  | interpolated x =>
    cases x
    rw [Node.toJson]
    rfl
  | stringPart x =>
    rw [Node.toJson]
    rfl
  | inlineHtml x =>
    rw [Node.toJson]
    rfl

theorem Node.nodup_names (x : Node) :
    ("nodeType" :: (x.jsonFields.map Prod.fst ++ ["attributes"])).Nodup := by
  cases x with
  | name x => exact Name.nodup_names x.text
  | interpolated x => exact show ["nodeType", "parts", "attributes"].Nodup by decide
  | stringPart x => exact show ["nodeType", "value", "attributes"].Nodup by decide
  | inlineHtml x => exact show ["nodeType", "value", "attributes"].Nodup by decide

theorem Node.nodeType_eq {x y : Node} (h : x.toJson.sorted = y.toJson.sorted) :
    TreeNode.nodeType x = TreeNode.nodeType y := by
  rw [x.toJson_eq, y.toJson_eq] at h
  exact nodeType_eq_of_sorted_eq x.nodup_names y.nodup_names h

/-- Nodes with fields of the same names agree in the fields and in the attributes. -/
theorem Node.fields_eq {x y : Node} (h : x.toJson.sorted = y.toJson.sorted)
    (hfields : x.jsonFields.map Prod.fst = y.jsonFields.map Prod.fst) :
    sortedMembers x.jsonFields = sortedMembers y.jsonFields ∧
      Bag.canonical (TreeNode.attributes x) = Bag.canonical (TreeNode.attributes y) := by
  rw [x.toJson_eq, y.toJson_eq] at h
  obtain ⟨hmembers, hattributes⟩ := nodeMembers_inj y.nodup_names hfields
    (Bag.pairwise_jsonMembers _) (Bag.pairwise_jsonMembers _) h
  exact ⟨hmembers, Bag.canonical_eq hattributes⟩

mutual

/-- A node is known from its sorted dump, up to its canonical form. -/
theorem Node.canonical_eq : ∀ {x y : Node}, x.toJson.sorted = y.toJson.sorted →
    x.canonical = y.canonical
  | .name _, .name _, h => congrArg Node.name (Name.canonical_eq h)
  | .interpolated ⟨parts, attributes⟩, .interpolated ⟨parts', attributes'⟩, h => by
    obtain ⟨hparts, hattributes⟩ := Node.fields_eq h rfl
    have hitems : sortedItems (Node.listToJson parts) = sortedItems (Node.listToJson parts') :=
      arr.inj (Prod.mk.inj (List.cons.inj hparts).1).2
    have hattributes : Bag.canonical attributes = Bag.canonical attributes' := hattributes
    rw [Node.canonical, Node.canonical, Node.canonicalList_eq hitems, hattributes]
  | .stringPart x, .stringPart y, h => by
    obtain ⟨hvalue, hattributes⟩ := Node.fields_eq h rfl
    have hvalue : x.value = y.value := str.inj (Prod.mk.inj (List.cons.inj hvalue).1).2
    have hattributes : Bag.canonical x.attributes = Bag.canonical y.attributes := hattributes
    rw [Node.canonical, Node.canonical, hvalue, hattributes]
  | .inlineHtml x, .inlineHtml y, h => by
    obtain ⟨hvalue, hattributes⟩ := Node.fields_eq h rfl
    have hvalue : x.value = y.value := str.inj (Prod.mk.inj (List.cons.inj hvalue).1).2
    have hattributes : Bag.canonical x.attributes = Bag.canonical y.attributes := hattributes
    rw [Node.canonical, Node.canonical, hvalue, hattributes]
  -- Nodes of different variants have different types.
  | .name _, .interpolated _, h | .name _, .stringPart _, h | .name _, .inlineHtml _, h
  | .interpolated _, .name _, h | .interpolated _, .stringPart _, h
  | .interpolated _, .inlineHtml _, h | .stringPart _, .name _, h
  | .stringPart _, .interpolated _, h | .stringPart _, .inlineHtml _, h
  | .inlineHtml _, .name _, h | .inlineHtml _, .interpolated _, h
  | .inlineHtml _, .stringPart _, h => nomatch Node.sameType_of_nodeType_eq (Node.nodeType_eq h)

theorem Node.canonicalList_eq : ∀ {xs ys : List Node},
    sortedItems (Node.listToJson xs) = sortedItems (Node.listToJson ys) →
      Node.canonicalList xs = Node.canonicalList ys
  | [], [], _ => rfl
  | [], _ :: _, h => by cases h
  | _ :: _, [], h => by cases h
  | x :: xs, y :: ys, h => by
    rw [Node.listToJson, Node.listToJson, sortedItems, sortedItems, List.cons.injEq] at h
    rw [Node.canonicalList, Node.canonicalList, Node.canonical_eq h.1, Node.canonicalList_eq h.2]

end

/-! ## Texts -/

/-- Where a sorted dump determines the canonical form and the canonical form has the same dump,
either text tells just the canonical form. -/
theorem tfae_of_canonical {α : Type} {toJson : α → Json} {canonical : α → α}
    (hvalid : ∀ a, (toJson a).WellFormed) (hcanonical : ∀ a, toJson (canonical a) = toJson a)
    (hsorted : ∀ {a b}, (toJson a).sorted = (toJson b).sorted → canonical a = canonical b)
    (a b : α) :
    [(toJson a).dumpText = (toJson b).dumpText,
      (toJson a).prettyDumpText = (toJson b).prettyDumpText, canonical a = canonical b].TFAE := by
  tfae_have 1 → 3 := fun h =>
    hsorted (compact_inj (hvalid a).numbersValid.sorted (hvalid b).numbersValid.sorted h)
  tfae_have 3 → 2 := fun h => by rw [← hcanonical a, h, hcanonical b]
  tfae_have 2 → 1 := fun h => by
    rw [dumpText, pretty_inj (hvalid a).numbersValid (hvalid b).numbersValid h, dumpText]
  tfae_finish

/-- Either text of a dump tells the canonical form of what was dumped, and nothing else: for nodes,
for attributes and for values. -/
theorem dumps_lossless :
    (∀ x y : Node, [x.toJson.dumpText = y.toJson.dumpText,
      x.toJson.prettyDumpText = y.toJson.prettyDumpText, x.canonical = y.canonical].TFAE) ∧
    (∀ a b : Attributes, [(Bag.toJson a).dumpText = (Bag.toJson b).dumpText,
      (Bag.toJson a).prettyDumpText = (Bag.toJson b).prettyDumpText,
      Bag.canonical a = Bag.canonical b].TFAE) ∧
    (∀ v w : Value, [v.toJson.dumpText = w.toJson.dumpText,
      v.toJson.prettyDumpText = w.toJson.prettyDumpText, v.canonical = w.canonical].TFAE) := by
  refine ⟨?_, ?_, ?_⟩
  · exact tfae_of_canonical Node.wellFormed_toJson Node.toJson_canonical Node.canonical_eq
  · exact tfae_of_canonical Bag.wellFormed_toJson Bag.toJson_canonical Bag.canonical_eq_of_sorted_eq
  · exact tfae_of_canonical Value.wellFormed_toJson Value.toJson_canonical Value.canonical_eq

end PhpTree
