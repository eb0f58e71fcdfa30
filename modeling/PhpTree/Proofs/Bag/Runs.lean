import Mathlib.Data.Set.Card
import PhpTree.Bag.Lemmas
import PhpTree.Proofs.Text.Utf8Order
import PhpTree.Value.Attributes

/-!
# Attributes over whole runs

Attributes stand for a partial map from keys to values. Each change of the attributes is matched by
one change of the map, and so is every run of changes. Since a bag is known from what is found under
its keys, the map a run leads to answers every question about the attributes.
-/

namespace PhpTree

/-- A partial map from keys to values. -/
abbrev Slots : Type :=
  String → Option Value

/-- The map with a pair put into it. -/
def Slots.put (m : Slots) (pair : String × Value) : Slots :=
  Function.update m pair.1 (some pair.2)

/-! ## Changes -/

/-- A change of what is under one key. What is done through a live reference is any function on
values, and the identity if nothing is done. -/
inductive SlotChange where
  | set (value : Value)
  | remove
  /-- Edits the value, if there is one. -/
  | edit (f : Value → Value)
  /-- Puts `default` there if there is nothing, and edits the value. -/
  | editOr (default : Value) (f : Value → Value)
  /-- Puts null there if there is nothing, and edits the value. -/
  | editRead (f : Value → Value)

namespace SlotChange

/-- The change of what a map has under a key. -/
def onSlot : SlotChange → Option Value → Option Value
  | set value, _ => some value
  | remove, _ => none
  | edit f, slot => slot.map f
  | editOr default f, slot => some (f (slot.getD default))
  | editRead f, slot => some (f (slot.getD .null))

/-- The change of attributes under `key`. -/
def onBag (key : String) : SlotChange → Attributes → Attributes
  | set value, b => b.insert key value
  | remove, b => (b.remove key).2
  | edit f, b => b.modify key f
  | editOr default f, b => b.modifyD key default f
  | editRead f, b => b.modifyD key .null f

/-- A change acts on its own key and on no other. -/
theorem get?_onBag (c : SlotChange) (b : Attributes) (key k : String) :
    (c.onBag key b).get? k = if k = key then c.onSlot (b.get? k) else b.get? k := by
  cases c with
  | set value => exact Bag.get?_insert b k key value
  | remove =>
    rw [onBag, Bag.remove_eq]
    exact Bag.get?_erase b k key
  | edit f => exact Bag.get?_modify b k key f
  | editOr default f => exact Bag.get?_modifyD b k key default f
  | editRead f => exact Bag.get?_modifyD b k key .null f

end SlotChange

/-- A step of a run on attributes. -/
inductive BagStep where
  | change (key : String) (c : SlotChange)
  | extend (pairs : List (String × Value))
  | clear

namespace BagStep

/-- The step on a partial map. -/
def onMap : BagStep → Slots → Slots
  | change key c, m => Function.update m key (c.onSlot (m key))
  | extend pairs, m => pairs.foldl Slots.put m
  | clear, _ => fun _ => none

/-- The step on attributes. -/
def onBag : BagStep → Attributes → Attributes
  | change key c, b => c.onBag key b
  | extend pairs, b => b.insertMany pairs
  | clear, _ => ∅

end BagStep

/-- The map that a run of steps leads to. -/
def runMap (steps : List BagStep) (m : Slots) : Slots :=
  steps.foldl (fun m step => step.onMap m) m

/-- The attributes that a run of steps leads to. -/
def runBag (steps : List BagStep) (b : Attributes) : Attributes :=
  steps.foldl (fun b step => step.onBag b) b

/-! ## Runs -/

theorem runBag_append (steps steps' : List BagStep) (b : Attributes) :
    runBag (steps ++ steps') b = runBag steps' (runBag steps b) :=
  List.foldl_append

theorem Bag.get?_insert_eq_put (b : Attributes) (pair : String × Value) :
    (b.insert pair.1 pair.2).get? = Slots.put b.get? pair := by
  funext k
  rw [Bag.get?_insert, Slots.put, Function.update_apply]

theorem Bag.get?_insertMany (pairs : List (String × Value)) (b : Attributes) :
    (b.insertMany pairs).get? = pairs.foldl Slots.put b.get? := by
  induction pairs generalizing b with
  | nil => rfl
  | cons pair pairs ih =>
    rw [List.foldl_cons, ← Bag.get?_insert_eq_put]
    exact ih (b.insert pair.1 pair.2)

/-- A step on attributes is the same step on the map they stand for. -/
theorem BagStep.get?_onBag (step : BagStep) (b : Attributes) :
    (step.onBag b).get? = step.onMap b.get? := by
  cases step with
  | change key c =>
    funext k
    rw [onBag, onMap, SlotChange.get?_onBag, Function.update_apply]
    by_cases hk : k = key
    · rw [if_pos hk, if_pos hk, hk]
    · rw [if_neg hk, if_neg hk]
  | extend pairs => exact Bag.get?_insertMany pairs b
  | clear => rfl

theorem get?_runBag (steps : List BagStep) (b : Attributes) :
    (runBag steps b).get? = runMap steps b.get? := by
  induction steps generalizing b with
  | nil => rfl
  | cons step steps ih =>
    have hstep := ih (step.onBag b)
    rw [BagStep.get?_onBag] at hstep
    exact hstep

/-! ## Answers -/

/-- Attributes answer every question as the partial map `m` does. -/
structure Bag.AnswersAs (b : Attributes) (m : Slots) : Prop where
  get? : ∀ key, b.get? key = m key
  contains : ∀ key, b.contains key = true ↔ m key ≠ none
  isSet : ∀ key, b.isSet key = true ↔ ∃ value, m key = some value ∧ value ≠ .null
  getD : ∀ key default, b.getD key default = (m key).getD default
  read : ∀ key, b.read key = (m key).getD .null
  removed : ∀ key, (b.remove key).1 = m key
  mem_toList : ∀ key value, (key, value) ∈ b.toList ↔ m key = some value
  keys_eq : b.keys = b.toList.map Prod.fst
  mem_keys : ∀ key, key ∈ b.keys ↔ m key ≠ none
  keys_nodup : b.keys.Nodup
  keys_ascend : (b.keys.map utf8Bytes).Pairwise (· < ·)
  size_eq : {key | m key ≠ none}.encard = b.size
  isEmpty : b.isEmpty = true ↔ ∀ key, m key = none

namespace Bag

theorem isSet_iff {b : Attributes} {key : String} :
    b.isSet key = true ↔ ∃ value, b.get? key = some value ∧ value ≠ .null := by
  unfold isSet
  cases b.get? key with
  | none => simp
  | some value => cases value <;> simp [Value.isNull]

theorem encard_keys (b : Attributes) : {key | b.get? key ≠ none}.encard = b.size := by
  have hset : {key | b.get? key ≠ none} = (b.keys.toFinset : Set String) := by
    ext key
    rw [List.coe_toFinset]
    exact mem_keys_iff.symm
  have hlength : b.keys.length = b.size := List.length_map _
  rw [hset, Set.encard_coe_eq_coe_finsetCard, List.toFinset_card_of_nodup b.keys_nodup, hlength]

/-- What is found under the keys of attributes answers all questions about them. -/
theorem answersAs_get? (b : Attributes) : b.AnswersAs b.get? where
  get? _ := rfl
  contains _ := contains_iff
  isSet _ := isSet_iff
  getD _ _ := rfl
  read _ := rfl
  removed key := by rw [remove_eq]
  mem_toList _ _ := mem_toList_iff
  keys_eq := rfl
  mem_keys _ := mem_keys_iff
  keys_nodup := b.keys_nodup
  keys_ascend := List.pairwise_map.2 (b.pairwise_keys.imp utf8Bytes_lt)
  size_eq := b.encard_keys
  isEmpty := isEmpty_iff_get?

/-- Attributes that a run of changes builds from nothing answer every question as the partial map
that the same changes build from the empty map. -/
theorem answersAs_of_run (steps : List BagStep) :
    (runBag steps ∅).AnswersAs (runMap steps fun _ => none) := by
  have hrun := get?_runBag steps ∅
  have hempty : (∅ : Attributes).get? = fun _ => none := funext get?_empty
  rw [hempty] at hrun
  rw [← hrun]
  exact answersAs_get? (runBag steps ∅)

end Bag

end PhpTree
