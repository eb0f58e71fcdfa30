import PhpTree.Node.Lawful
import PhpTree.Proofs.Name.Joining

/-!
# Names from stored values

Passes store names loosely: as a string, as a list of parts, or as a name. Every other value is
refused when it is read, and so is a list with anything but strings in it, at any position. The
empty list passes the reading, because there is nothing in it but strings, and is refused when the
name is built. Whichever spelling of a name is stored, the same name is built from it.
-/

namespace PhpTree

/-! ## What values spell -/

namespace Value

/-- The value spells a name with this text: it is a string, a name of any kind, or a list of strings,
at least one. -/
inductive Spells : Value → String → Prop
  | str (s : String) : Spells (.str s) s
  | name (x : Name) : Spells (.name x) x.text
  | list {ps : List String} (hne : ps ≠ []) : Spells (.list (ps.map .str)) (Name.joinParts ps)

/-- The value has a shape that spells no name, or it is a list with something else than a string at
some position. -/
inductive Unreadable : Value → Prop
  | null : Unreadable .null
  | bool (b : Bool) : Unreadable (.bool b)
  | int (n : Int64) : Unreadable (.int n)
  | float (x : Binary64) : Unreadable (.float x)
  | comments (cs : List Comment) : Unreadable (.comments cs)
  | list {items : List Value} {item : Value} (hitem : item ∈ items) (hstr : ∀ s, item ≠ .str s) :
      Unreadable (.list items)

theorem strings_or_exists_other (items : List Value) :
    (∃ ps : List String, items = ps.map .str) ∨ ∃ item ∈ items, ∀ s, item ≠ .str s := by
  by_cases h : ∀ item ∈ items, ∃ s, item = .str s
  · left
    induction items with
    | nil => exact ⟨[], rfl⟩
    | cons item items ih =>
      obtain ⟨s, rfl⟩ := h item List.mem_cons_self
      obtain ⟨ps, rfl⟩ := ih fun item hitem => h item (List.mem_cons_of_mem _ hitem)
      exact ⟨s :: ps, rfl⟩
  · right
    simpa using h

/-- Besides the values that spell a name and those that cannot be read there is just the empty
list. -/
theorem spells_or (v : Value) : (∃ text, v.Spells text) ∨ v = .list [] ∨ v.Unreadable := by
  cases v with
  | null => exact Or.inr (Or.inr .null)
  | bool b => exact Or.inr (Or.inr (.bool b))
  | int n => exact Or.inr (Or.inr (.int n))
  | float x => exact Or.inr (Or.inr (.float x))
  | str s => exact Or.inl ⟨s, .str s⟩
  | comments cs => exact Or.inr (Or.inr (.comments cs))
  | list items =>
    rcases strings_or_exists_other items with ⟨ps, rfl⟩ | ⟨item, hitem, hstr⟩
    · by_cases hne : ps = []
      · rw [hne]
        exact Or.inr (Or.inl rfl)
      · exact Or.inl ⟨_, .list hne⟩
    · exact Or.inr (Or.inr (.list hitem hstr))
  | name x => exact Or.inl ⟨x.text, .name x⟩

end Value

/-! ## Reading lists -/

namespace NameInput

theorem strings?_map_str (ps : List String) : strings? (ps.map .str) = some ps := by
  induction ps with
  | nil => rfl
  | cons p ps ih => rw [List.map_cons, strings?, ih, Value.str?]

/-- One item that is not a string spoils the list, wherever it stands. -/
theorem strings?_eq_none {items : List Value} {item : Value} (hitem : item ∈ items)
    (hstr : ∀ s, item ≠ .str s) : strings? items = none := by
  induction items with
  | nil => exact absurd hitem List.not_mem_nil
  | cons v items ih =>
    rw [strings?]
    rcases List.mem_cons.1 hitem with rfl | hitem
    · have hnone : item.str? = none := by
        cases item with
        | str s => exact absurd rfl (hstr s)
        | _ => rfl
      rw [hnone]
    · rw [ih hitem]
      cases v.str? <;> rfl

end NameInput

/-! ## Building names -/

/-- The name of kind `kind` that is built from what is stored in `v`. -/
def Name.ofValue (kind : NameKind) (v : Value) (attributes : Attributes) : Attempt Name := do
  let input ← NameInput.ofValue v
  Name.build kind input attributes

namespace Name

variable {kind : NameKind} {attributes : Attributes} {v : Value}

theorem result_ofValue_of_spells {text : String} (h : v.Spells text) :
    (ofValue kind v attributes).result =
      .ok { text := text, kind := kind, attributes := attributes } := by
  cases h with
  | str s => rfl
  | name x => rfl
  | @list ps hne =>
    have hread : NameInput.ofValue (.list (ps.map .str)) = pure (.parts ps) := by
      rw [NameInput.ofValue, NameInput.strings?_map_str]
    rw [ofValue, hread, pure_bind, result_build_parts kind hne]

theorem result_ofValue_of_unreadable (h : v.Unreadable) :
    (ofValue kind v attributes).result = .error Fault.unsupportedInput := by
  cases h with
  | @list items item hitem hstr =>
    have hread : NameInput.ofValue (.list items) = NameInput.refuseValue := by
      rw [NameInput.ofValue, NameInput.strings?_eq_none hitem hstr]
    rw [ofValue, hread]
    rfl
  | _ => rfl

theorem result_ofValue_nil :
    (ofValue kind (.list []) attributes).result = .error Fault.emptyPartList :=
  rfl

theorem result_ofValue_eq_ok_iff {r : Name} : (ofValue kind v attributes).result = .ok r ↔
    ∃ text, v.Spells text ∧ r = { text := text, kind := kind, attributes := attributes } := by
  constructor
  · intro h
    rcases v.spells_or with ⟨text, htext⟩ | rfl | hun
    · rw [result_ofValue_of_spells htext] at h
      exact ⟨text, htext, (Except.ok.inj h).symm⟩
    · cases h
    · rw [result_ofValue_of_unreadable hun] at h
      cases h
  · rintro ⟨text, htext, rfl⟩
    exact result_ofValue_of_spells htext

theorem result_ofValue_eq_emptyPartList_iff :
    (ofValue kind v attributes).result = .error Fault.emptyPartList ↔ v = .list [] := by
  constructor
  · intro h
    rcases v.spells_or with ⟨text, htext⟩ | hnil | hun
    · rw [result_ofValue_of_spells htext] at h
      cases h
    · exact hnil
    · rw [result_ofValue_of_unreadable hun] at h
      exact absurd (Except.error.inj h) (by decide)
  · rintro rfl
    exact result_ofValue_nil

theorem result_ofValue_eq_unsupportedInput_iff :
    (ofValue kind v attributes).result = .error Fault.unsupportedInput ↔ v.Unreadable := by
  constructor
  · intro h
    rcases v.spells_or with ⟨text, htext⟩ | rfl | hun
    · rw [result_ofValue_of_spells htext] at h
      cases h
    · rw [result_ofValue_nil] at h
      exact absurd (Except.error.inj h) (by decide)
    · exact hun
  · exact result_ofValue_of_unreadable

end Name

/-! ## Stored names -/

namespace TreeNode

variable {α : Type} [TreeNode α] [LawfulTreeNode α]

/-- What is set is what is read. -/
theorem readAttribute_setAttribute (x : α) (key : String) (value : Value) :
    readAttribute (setAttribute x key value) key = value := by
  have h := attribute?_setAttribute x key key value
  rw [if_pos rfl, attribute?] at h
  rw [readAttribute, Bag.read, Bag.getD, h, Option.getD_some]

end TreeNode

/-- The value gives the name `r`: as it is, and also when it was set or assigned under some key of
some node and is read from there. -/
structure Value.Gives (v : Value) (r : Name) : Prop where
  direct : (Name.ofValue r.kind v r.attributes).result = .ok r
  set : ∀ (x : Node) (key : String), (Name.ofValue r.kind
    (TreeNode.readAttribute (TreeNode.setAttribute x key v) key) r.attributes).result = .ok r
  assigned : ∀ (x : Node) (key : String), (Name.ofValue r.kind
    (TreeNode.readAttribute (TreeNode.editAttribute x key fun _ => v) key)
    r.attributes).result = .ok r

theorem Value.Spells.gives {v : Value} {text : String} (h : v.Spells text) (kind : NameKind)
    (attributes : Attributes) :
    v.Gives { text := text, kind := kind, attributes := attributes } := by
  have hset (x : Node) (key : String) : (Name.ofValue kind
      (TreeNode.readAttribute (TreeNode.setAttribute x key v) key) attributes).result =
        .ok { text := text, kind := kind, attributes := attributes } := by
    rw [TreeNode.readAttribute_setAttribute]
    exact Name.result_ofValue_of_spells h
  exact ⟨Name.result_ofValue_of_spells h, hset, hset⟩

/-- The parts of a name spell the name, also where they are empty. -/
theorem Name.spells_list_parts (x : Name) : (Value.list (x.parts.map .str)).Spells x.text := by
  have h := Value.Spells.list x.parts_ne_nil
  rwa [parts, joinParts_splitText] at h

/-- A name is built from a stored value just if the value spells one: a string, a name, or a list of
strings, at least one. It has the text that is spelled, and the kind and attributes asked for. The
empty list is refused as a name without parts, and every other value as nothing that a name is read
from. The three spellings of a name, by its text, by its parts, and by a name with this text and
whatever kind and attributes, all give the same name, also when they are stored in a node first. -/
theorem names_from_loose_values (kind : NameKind) (attributes : Attributes) :
    (∀ v : Value,
      let outcome := (Name.ofValue kind v attributes).result
      ((∃ text, v.Spells text) ∨ v = .list [] ∨ v.Unreadable) ∧
      (∀ r, outcome = .ok r ↔
        ∃ text, v.Spells text ∧ r = { text := text, kind := kind, attributes := attributes }) ∧
      (outcome = .error (.invalidArgument "Name part array cannot be empty") ↔ v = .list []) ∧
      (outcome = .error (.invalidArgument "Expected string, part list or Name node") ↔
        v.Unreadable)) ∧
    (∀ (x : Name) (kind' : NameKind) (attributes' : Attributes),
      let r : Name := { text := x.text, kind := kind, attributes := attributes }
      (Value.str x.text).Gives r ∧ (Value.list (x.parts.map .str)).Gives r ∧
        (Value.name { text := x.text, kind := kind', attributes := attributes' }).Gives r) := by
  refine ⟨fun v => ⟨v.spells_or, fun r => ?_, ?_, ?_⟩, fun x kind' attributes' => ⟨?_, ?_, ?_⟩⟩
  · exact Name.result_ofValue_eq_ok_iff
  · exact Name.result_ofValue_eq_emptyPartList_iff
  · exact Name.result_ofValue_eq_unsupportedInput_iff
  · exact (Value.Spells.str x.text).gives kind attributes
  · exact x.spells_list_parts.gives kind attributes
  · exact (Value.Spells.name { text := x.text, kind := kind', attributes := attributes' }).gives
      kind attributes

end PhpTree
