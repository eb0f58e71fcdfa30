import PhpTree.Proofs.Bag.OfList
import PhpTree.Proofs.Json.Layouts
import PhpTree.Proofs.Text.Utf8Order

/-!
# The order of members

Two values are the same up to the order of members when reordering the members of objects, at any
depth, turns one into the other. Sorting reorders the members of a value in which no key repeats,
and nothing else; what comes out has all keys in ascending order of their bytes. A layout is any map
that reorders members and nothing else; members are found by their keys in all of them.
-/

namespace PhpTree.Json

/-! ## Keys -/

mutual

/-- Whether the keys of every object in a value, in their order, satisfy `P`. -/
def KeysSatisfy (P : List String → Prop) : Json → Prop
  | .arr items => ItemKeysSatisfy P items
  | .obj members => P (members.map Prod.fst) ∧ MemberKeysSatisfy P members
  | .null | .bool _ | .num _ | .str _ => True

/-- Whether the keys of every object in items satisfy `P`. -/
def ItemKeysSatisfy (P : List String → Prop) : List Json → Prop
  | [] => True
  | x :: xs => x.KeysSatisfy P ∧ ItemKeysSatisfy P xs

/-- Whether the keys of every object in the values of members satisfy `P`. -/
def MemberKeysSatisfy (P : List String → Prop) : List (String × Json) → Prop
  | [] => True
  | (_, x) :: rest => x.KeysSatisfy P ∧ MemberKeysSatisfy P rest

end

/-- No object in the value has a key twice. -/
def KeysDistinct (x : Json) : Prop :=
  x.KeysSatisfy List.Nodup

/-- The keys of every object in the value ascend strictly by their UTF-8 bytes. -/
def KeysAscend (x : Json) : Prop :=
  x.KeysSatisfy (List.Pairwise fun a b => utf8Bytes a < utf8Bytes b)

theorem itemKeysSatisfy_iff {P : List String → Prop} {xs : List Json} :
    ItemKeysSatisfy P xs ↔ ∀ x ∈ xs, x.KeysSatisfy P := by
  induction xs with
  | nil => exact ⟨fun _ _ h => (List.not_mem_nil h).elim, fun _ => trivial⟩
  | cons x xs ih => rw [ItemKeysSatisfy, ih, List.forall_mem_cons]

theorem memberKeysSatisfy_iff {P : List String → Prop} {ms : List (String × Json)} :
    MemberKeysSatisfy P ms ↔ ∀ m ∈ ms, m.2.KeysSatisfy P := by
  induction ms with
  | nil => exact ⟨fun _ _ h => (List.not_mem_nil h).elim, fun _ => trivial⟩
  | cons m ms ih => rw [MemberKeysSatisfy, ih, List.forall_mem_cons]

theorem itemsValid_iff {xs : List Json} : ItemsValid xs ↔ ∀ x ∈ xs, x.NumbersValid := by
  induction xs with
  | nil => exact ⟨fun _ _ h => (List.not_mem_nil h).elim, fun _ => trivial⟩
  | cons x xs ih => rw [ItemsValid, ih, List.forall_mem_cons]

theorem membersValid_iff {ms : List (String × Json)} :
    MembersValid ms ↔ ∀ m ∈ ms, m.2.NumbersValid := by
  induction ms with
  | nil => exact ⟨fun _ _ h => (List.not_mem_nil h).elim, fun _ => trivial⟩
  | cons m ms ih => rw [MembersValid, ih, List.forall_mem_cons]

mutual

theorem KeysSatisfy.imp {P Q : List String → Prop} (h : ∀ keys, P keys → Q keys) :
    ∀ {x : Json}, x.KeysSatisfy P → x.KeysSatisfy Q
  | .arr _, hx => ItemKeysSatisfy.imp h hx
  | .obj _, hx => ⟨h _ hx.1, MemberKeysSatisfy.imp h hx.2⟩
  | .null, _ | .bool _, _ | .num _, _ | .str _, _ => trivial

theorem ItemKeysSatisfy.imp {P Q : List String → Prop} (h : ∀ keys, P keys → Q keys) :
    ∀ {xs : List Json}, ItemKeysSatisfy P xs → ItemKeysSatisfy Q xs
  | [], _ => trivial
  | _ :: _, hxs => ⟨KeysSatisfy.imp h hxs.1, ItemKeysSatisfy.imp h hxs.2⟩

theorem MemberKeysSatisfy.imp {P Q : List String → Prop} (h : ∀ keys, P keys → Q keys) :
    ∀ {ms : List (String × Json)}, MemberKeysSatisfy P ms → MemberKeysSatisfy Q ms
  | [], _ => trivial
  | _ :: _, hms => ⟨KeysSatisfy.imp h hms.1, MemberKeysSatisfy.imp h hms.2⟩

end

theorem KeysAscend.keysDistinct {x : Json} (h : x.KeysAscend) : x.KeysDistinct := by
  refine KeysSatisfy.imp (fun keys hkeys => hkeys.imp ?_) h
  rintro a _ hlt rfl
  exact List.lt_irrefl (utf8Bytes a) hlt

/-! ## Reordering -/

mutual

/-- Two values are the same when the order of the members of objects is ignored. -/
inductive SameUpToOrder : Json → Json → Prop
  | null : SameUpToOrder .null .null
  | bool (b : Bool) : SameUpToOrder (.bool b) (.bool b)
  | num (literal : String) : SameUpToOrder (.num literal) (.num literal)
  | str (s : String) : SameUpToOrder (.str s) (.str s)
  | arr {xs ys : List Json} : ItemsSame xs ys → SameUpToOrder (.arr xs) (.arr ys)
  | obj {ms ns ps : List (String × Json)} : ms.Perm ns → MembersSame ns ps →
      SameUpToOrder (.obj ms) (.obj ps)

/-- Items that are the same one by one. -/
inductive ItemsSame : List Json → List Json → Prop
  | nil : ItemsSame [] []
  | cons {x y : Json} {xs ys : List Json} : SameUpToOrder x y → ItemsSame xs ys →
      ItemsSame (x :: xs) (y :: ys)

/-- Members with the same keys one by one, and the same values under them. -/
inductive MembersSame : List (String × Json) → List (String × Json) → Prop
  | nil : MembersSame [] []
  | cons {key : String} {x y : Json} {ms ns : List (String × Json)} : SameUpToOrder x y →
      MembersSame ms ns → MembersSame ((key, x) :: ms) ((key, y) :: ns)

end

/-! ## Sorting -/

theorem sortedMembers_eq_map (ms : List (String × Json)) :
    sortedMembers ms = ms.map fun m => (m.1, m.2.sorted) := by
  induction ms with
  | nil => rfl
  | cons m ms ih => rw [sortedMembers, ih, List.map_cons]

theorem sortedMembers_append (ms ns : List (String × Json)) :
    sortedMembers (ms ++ ns) = sortedMembers ms ++ sortedMembers ns := by
  rw [sortedMembers_eq_map, sortedMembers_eq_map, sortedMembers_eq_map, List.map_append]

theorem length_sortedMembers (ms : List (String × Json)) :
    (sortedMembers ms).length = ms.length := by
  rw [sortedMembers_eq_map, List.length_map]

@[simp] theorem keys_sortedMembers (ms : List (String × Json)) :
    (sortedMembers ms).map Prod.fst = ms.map Prod.fst := by
  rw [sortedMembers_eq_map, List.map_map]
  rfl

mutual

theorem NumbersValid.sorted : ∀ {x : Json}, x.NumbersValid → x.sorted.NumbersValid
  | .null, _ | .bool _, _ | .str _, _ => trivial
  | .num _, h => h
  | .arr _, h => ItemsValid.sortedItems h
  | .obj ms, h => by
    have hms : MembersValid (sortedMembers ms) := MembersValid.sortedMembers h
    exact membersValid_iff.2 fun m hm => membersValid_iff.1 hms m (Bag.mem_of_mem_ofList hm)

theorem ItemsValid.sortedItems : ∀ {xs : List Json}, ItemsValid xs → ItemsValid (sortedItems xs)
  | [], _ => trivial
  | _ :: _, h => ⟨NumbersValid.sorted h.1, ItemsValid.sortedItems h.2⟩

theorem MembersValid.sortedMembers : ∀ {ms : List (String × Json)}, MembersValid ms →
    MembersValid (sortedMembers ms)
  | [], _ => trivial
  | _ :: _, h => ⟨NumbersValid.sorted h.1, MembersValid.sortedMembers h.2⟩

end

mutual

theorem keysAscend_sorted : ∀ x : Json, x.sorted.KeysAscend
  | .null | .bool _ | .str _ | .num _ => trivial
  | .arr xs => itemKeysAscend_sorted xs
  | .obj ms => by
    refine ⟨((Bag.ofList (sortedMembers ms)).pairwise_keys).imp utf8Bytes_lt, ?_⟩
    have hms := memberKeysSatisfy_iff.1 (memberKeysAscend_sorted ms)
    exact memberKeysSatisfy_iff.2 fun m hm => hms m (Bag.mem_of_mem_ofList hm)

theorem itemKeysAscend_sorted : ∀ xs : List Json,
    ItemKeysSatisfy (List.Pairwise fun a b => utf8Bytes a < utf8Bytes b) (sortedItems xs)
  | [] => trivial
  | x :: xs => ⟨keysAscend_sorted x, itemKeysAscend_sorted xs⟩

theorem memberKeysAscend_sorted : ∀ ms : List (String × Json),
    MemberKeysSatisfy (List.Pairwise fun a b => utf8Bytes a < utf8Bytes b) (sortedMembers ms)
  | [] => trivial
  | (_, x) :: ms => ⟨keysAscend_sorted x, memberKeysAscend_sorted ms⟩

end

theorem perm_sorted {ms : List (String × Json)} (h : (ms.map Prod.fst).Nodup) :
    (Bag.ofList (sortedMembers ms)).toList.Perm (sortedMembers ms) :=
  Bag.perm_ofList (by rwa [keys_sortedMembers])

mutual

/-- Sorting a value in which no key repeats only reorders members. -/
theorem sameUpToOrder_sorted : ∀ {x : Json}, x.KeysDistinct → SameUpToOrder x.sorted x
  | .null, _ => .null
  | .bool b, _ => .bool b
  | .num literal, _ => .num literal
  | .str s, _ => .str s
  | .arr _, h => .arr (itemsSame_sorted h)
  | .obj _, h => .obj (perm_sorted h.1) (membersSame_sorted h.2)

theorem itemsSame_sorted : ∀ {xs : List Json}, ItemKeysSatisfy List.Nodup xs →
    ItemsSame (sortedItems xs) xs
  | [], _ => .nil
  | _ :: _, h => .cons (sameUpToOrder_sorted h.1) (itemsSame_sorted h.2)

theorem membersSame_sorted : ∀ {ms : List (String × Json)}, MemberKeysSatisfy List.Nodup ms →
    MembersSame (sortedMembers ms) ms
  | [], _ => .nil
  | _ :: _, h => .cons (sameUpToOrder_sorted h.1) (membersSame_sorted h.2)

end

/-! ## What sorting does not hide -/

/-- Members in the same order of keys are the same when they are the same in another order. -/
theorem eq_of_perm_of_keys {ms ns : List (String × Json)} (hperm : ms.Perm ns)
    (hnodup : (ns.map Prod.fst).Nodup) (hkeys : ms.map Prod.fst = ns.map Prod.fst) : ms = ns := by
  induction ms generalizing ns with
  | nil => exact hperm.nil_eq
  | cons m ms ih =>
    cases ns with
    | nil => cases hkeys
    | cons n ns =>
      rw [List.map_cons, List.map_cons, List.cons.injEq] at hkeys
      rw [List.map_cons, List.nodup_cons] at hnodup
      have hmem : m ∈ n :: ns := hperm.subset List.mem_cons_self
      -- The key of `m` occurs once in the other list, and there it is the first.
      have hmn : m = n := by
        rcases List.mem_cons.1 hmem with heq | hmem
        · exact heq
        · exact absurd (hkeys.1 ▸ List.mem_map_of_mem hmem) hnodup.1
      subst hmn
      rw [ih hperm.cons_inv hnodup.2 hkeys.2]

/-- Objects that are sorted to the same value have the same members, sorted inside. -/
theorem perm_of_sorted_eq {ms ns : List (String × Json)} (hms : (ms.map Prod.fst).Nodup)
    (hns : (ns.map Prod.fst).Nodup) (h : (obj ms).sorted = (obj ns).sorted) :
    (sortedMembers ms).Perm (sortedMembers ns) := by
  have hlist : (Bag.ofList (sortedMembers ms)).toList = (Bag.ofList (sortedMembers ns)).toList :=
    obj.inj h
  exact (perm_sorted hms).symm.trans (hlist ▸ perm_sorted hns)

theorem keys_perm_of_sorted_eq {ms ns : List (String × Json)} (hms : (ms.map Prod.fst).Nodup)
    (hns : (ns.map Prod.fst).Nodup) (h : (obj ms).sorted = (obj ns).sorted) :
    (ms.map Prod.fst).Perm (ns.map Prod.fst) := by
  have hperm := (perm_of_sorted_eq hms hns h).map Prod.fst
  rwa [keys_sortedMembers, keys_sortedMembers] at hperm

/-- Sorting hides nothing of objects with their keys in the same order. -/
theorem sortedMembers_eq_of_sorted_eq {ms ns : List (String × Json)}
    (hnodup : (ns.map Prod.fst).Nodup) (hkeys : ms.map Prod.fst = ns.map Prod.fst)
    (h : (obj ms).sorted = (obj ns).sorted) : sortedMembers ms = sortedMembers ns := by
  refine eq_of_perm_of_keys (perm_of_sorted_eq (hkeys ▸ hnodup) hnodup h) ?_ ?_
  · rwa [keys_sortedMembers]
  · rwa [keys_sortedMembers, keys_sortedMembers]

theorem sorted_obj {ms : List (String × Json)} (h : ms.Pairwise fun a b => a.1 < b.1) :
    (obj ms).sorted = .obj (sortedMembers ms) := by
  have hsorted : (sortedMembers ms).Pairwise fun a b => a.1 < b.1 := by
    rw [sortedMembers_eq_map, List.pairwise_map]
    exact h
  rw [sorted, Bag.toList_ofList hsorted]

/-! ## Layouts -/

/-- A layout of values: it may reorder the members of objects that have no key twice, and changes
nothing else. -/
structure Reorders (write : Json → Json) : Prop where
  null : write .null = .null
  bool : ∀ b, write (.bool b) = .bool b
  num : ∀ literal, write (.num literal) = .num literal
  str : ∀ s, write (.str s) = .str s
  arr : ∀ items, write (.arr items) = .arr (items.map write)
  obj : ∀ members : List (String × Json), (members.map Prod.fst).Nodup →
    ∃ members', write (.obj members) = .obj members' ∧
      members'.Perm (members.map fun m => (m.1, write m.2))

theorem reorders_id : Reorders id where
  null := rfl
  bool _ := rfl
  num _ := rfl
  str _ := rfl
  arr items := by rw [List.map_id, id]
  obj members _ := ⟨members, rfl, by simp⟩

theorem sortedItems_eq_map (items : List Json) : sortedItems items = items.map sorted := by
  induction items with
  | nil => rfl
  | cons x xs ih => rw [sortedItems, ih, List.map_cons]

theorem reorders_sorted : Reorders sorted where
  null := rfl
  bool _ := rfl
  num _ := rfl
  str _ := rfl
  arr items := by rw [sorted, sortedItems_eq_map]
  obj members hnodup := by
    refine ⟨_, rfl, ?_⟩
    rw [← sortedMembers_eq_map]
    exact perm_sorted hnodup

/-- Where no key repeats, every member is found by its key. -/
theorem lookup_of_mem {members : List (String × Json)} {key : String} {x : Json}
    (hnodup : (members.map Prod.fst).Nodup) (h : (key, x) ∈ members) :
    members.lookup key = some x := by
  induction members with
  | nil => exact absurd h List.not_mem_nil
  | cons m members ih =>
    rw [List.map_cons, List.nodup_cons] at hnodup
    rcases List.mem_cons.1 h with rfl | h
    · exact List.lookup_cons_self
    · have hne : (key == m.1) = false := by
        rw [beq_eq_false_iff_ne]
        intro heq
        have hkey : key ∈ members.map Prod.fst := List.mem_map_of_mem h
        exact hnodup.1 (heq ▸ hkey)
      rw [List.lookup_cons, hne]
      exact ih hnodup.2 h

end PhpTree.Json
