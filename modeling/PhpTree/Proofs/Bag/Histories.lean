import PhpTree.Dump
import PhpTree.Proofs.Bag.OfList
import PhpTree.Proofs.Bag.Runs

/-!
# Histories of keys

A run leaves under a key what the changes of this key alone lead to, one after the other. Two runs in
which every key has the same history lead to the same attributes, whatever the order between
different keys is. Since a bag keeps its pairs in one order only, the attributes are the same pair
for pair.
-/

namespace PhpTree

/-! ## Changes of one key -/

/-- What a step does under `key`, in order. Dropping all keys removes this one. -/
def BagStep.changesAt (key : String) : BagStep → List SlotChange
  | change k c => if k = key then [c] else []
  | extend pairs => (pairs.filter fun pair => pair.1 = key).map fun pair => .set pair.2
  | clear => [.remove]

/-- The history of a key in a run: all that is done under it, in order. -/
def history (key : String) (steps : List BagStep) : List SlotChange :=
  steps.flatMap (BagStep.changesAt key)

/-- What changes of one slot lead to, one after the other. -/
def runSlot (changes : List SlotChange) (slot : Option Value) : Option Value :=
  changes.foldl (fun slot c => c.onSlot slot) slot

theorem foldl_put_apply (key : String) (pairs : List (String × Value)) (m : Slots) :
    (pairs.foldl Slots.put m) key = runSlot (BagStep.changesAt key (.extend pairs)) (m key) := by
  induction pairs generalizing m with
  | nil => rfl
  | cons pair pairs ih =>
    rw [List.foldl_cons, ih, Slots.put, Function.update_apply, BagStep.changesAt, BagStep.changesAt,
      List.filter_cons]
    by_cases hkey : pair.1 = key
    · simp only [hkey, decide_true, if_true]
      rfl
    · have hkey' : ¬ key = pair.1 := fun h => hkey h.symm
      simp only [hkey, hkey', decide_false, if_false, Bool.false_eq_true]

theorem BagStep.onMap_apply (key : String) (step : BagStep) (m : Slots) :
    step.onMap m key = runSlot (step.changesAt key) (m key) := by
  cases step with
  | change k c =>
    rw [onMap, changesAt, Function.update_apply]
    by_cases hkey : k = key
    · subst hkey
      simp only [if_true]
      rfl
    · rw [if_neg hkey, if_neg fun h => hkey h.symm]
      rfl
  | extend pairs => exact foldl_put_apply key pairs m
  | clear => rfl

theorem runMap_apply (key : String) (steps : List BagStep) (m : Slots) :
    runMap steps m key = runSlot (history key steps) (m key) := by
  induction steps generalizing m with
  | nil => rfl
  | cons step steps ih =>
    have hstep : runMap (step :: steps) m = runMap steps (step.onMap m) := rfl
    rw [hstep, ih, BagStep.onMap_apply, history, history, List.flatMap_cons, runSlot, runSlot,
      runSlot, List.foldl_append]

theorem Bag.get?_runBag_eq_runSlot (key : String) (steps : List BagStep) (b : Attributes) :
    (runBag steps b).get? key = runSlot (history key steps) (b.get? key) := by
  rw [get?_runBag, runMap_apply]

/-- Runs in which every key has the same history lead to the same attributes. -/
theorem runBag_congr {steps steps' : List BagStep} (h : ∀ key, history key steps = history key steps')
    (b : Attributes) : runBag steps b = runBag steps' b := by
  apply Bag.ext_get?
  intro key
  rw [Bag.get?_runBag_eq_runSlot, Bag.get?_runBag_eq_runSlot, h key]

/-! ## Interleaved runs -/

/-- The items of two lists in one list that keeps the order of each. -/
inductive Interleaved {α : Type} : List α → List α → List α → Prop
  | nil : Interleaved [] [] []
  | left (a : α) {as bs cs : List α} : Interleaved as bs cs → Interleaved (a :: as) bs (a :: cs)
  | right (b : α) {as bs cs : List α} : Interleaved as bs cs → Interleaved as (b :: bs) (b :: cs)

theorem history_append (key : String) (steps steps' : List BagStep) :
    history key (steps ++ steps') = history key steps ++ history key steps' :=
  List.flatMap_append

/-- A key that only one of two runs changes has the history of this run in both, interleaved. -/
theorem Interleaved.history_eq {key : String} {left right steps : List BagStep}
    (h : Interleaved left right steps) (hkey : history key left = [] ∨ history key right = []) :
    history key steps = history key left ++ history key right := by
  -- A step of the left run goes in front of both histories. A step of the right run can go past that
  -- of the left one, because one of the two does nothing under the key.
  induction h with
  | nil => rfl
  | left step _ ih =>
    rw [history, List.flatMap_cons, List.append_eq_nil_iff] at hkey
    have hrest := ih (hkey.imp_left And.right)
    rw [history, history, List.flatMap_cons, List.flatMap_cons, List.append_assoc]
    exact congrArg (step.changesAt key ++ ·) hrest
  | @right step left right steps _ ih =>
    have hcons : history key (step :: right) = step.changesAt key ++ history key right :=
      List.flatMap_cons
    have hsteps : history key (step :: steps) = step.changesAt key ++ history key steps :=
      List.flatMap_cons
    rw [hcons] at hkey ⊢
    rw [hsteps]
    rcases hkey with hleft | hright
    · rw [ih (.inl hleft), hleft, List.nil_append, List.nil_append]
    · rw [List.append_eq_nil_iff] at hright
      rw [ih (.inr hright.2), hright.1, List.nil_append, List.nil_append]

/-! ## Bags of pairs -/

namespace Bag

variable {α : Type}

/-- A pair is the last one with its key. -/
def IsLastPair (pair : String × α) (pairs : List (String × α)) : Prop :=
  ∃ before after, pairs = before ++ pair :: after ∧ ∀ p ∈ after, p.1 ≠ pair.1

theorem not_isLastPair_nil (pair : String × α) : ¬ IsLastPair pair [] := by
  rintro ⟨before, after, h, -⟩
  cases before <;> cases h

theorem isLastPair_cons_iff {pair p : String × α} {pairs : List (String × α)} :
    IsLastPair pair (p :: pairs) ↔
      IsLastPair pair pairs ∨ p = pair ∧ ∀ q ∈ pairs, q.1 ≠ pair.1 := by
  constructor
  · rintro ⟨before, after, h, hafter⟩
    cases before with
    | nil =>
      cases h
      exact Or.inr ⟨rfl, hafter⟩
    | cons p' before =>
      cases h
      exact Or.inl ⟨before, after, rfl, hafter⟩
  · rintro (⟨before, after, rfl, hafter⟩ | ⟨rfl, hafter⟩)
    · exact ⟨p :: before, after, rfl, hafter⟩
    · exact ⟨[], pairs, rfl, hafter⟩

/-- Under a key there is the last of the pairs put in with it; what was there before is left only if
there is no such pair. -/
theorem get?_insertMany_eq_some_iff {pairs : List (String × α)} {b : Bag α} {key : String}
    {value : α} : (b.insertMany pairs).get? key = some value ↔
      IsLastPair (key, value) pairs ∨ (∀ p ∈ pairs, p.1 ≠ key) ∧ b.get? key = some value := by
  induction pairs generalizing b with
  | nil =>
    have hnone : ∀ p ∈ ([] : List (String × α)), p.1 ≠ key := fun _ hp => (nomatch hp)
    constructor
    · intro h
      exact Or.inr ⟨hnone, h⟩
    · rintro (h | ⟨-, h⟩)
      · exact absurd h (not_isLastPair_nil _)
      · exact h
  | cons p pairs ih =>
    have hcons : b.insertMany (p :: pairs) = (b.insert p.1 p.2).insertMany pairs := rfl
    rw [hcons, ih, get?_insert, isLastPair_cons_iff, List.forall_mem_cons]
    obtain ⟨k, v⟩ := p
    by_cases hkey : key = k
    · subst hkey
      simp only [if_true, Option.some.injEq, Prod.mk.injEq, true_and, ne_eq, not_true_eq_false,
        false_and, or_false]
      rw [and_comm (b := v = value)]
    · have hkey' : ¬ k = key := fun h => hkey h.symm
      simp only [hkey, hkey', if_false, Prod.mk.injEq, false_and, or_false, ne_eq, not_false_eq_true,
        true_and]

theorem mem_toList_ofList_iff {pairs : List (String × α)} {pair : String × α} :
    pair ∈ (ofList pairs).toList ↔ IsLastPair pair pairs := by
  obtain ⟨key, value⟩ := pair
  rw [mem_toList_iff, ofList, get?_insertMany_eq_some_iff, get?_empty]
  simp

/-- The pairs of a bag make the same bag again, in whatever order they are put in. -/
theorem ofList_of_perm {b : Bag α} {pairs : List (String × α)} (h : pairs.Perm b.toList) :
    ofList pairs = b := by
  have hnodup : (pairs.map Prod.fst).Nodup := (h.map Prod.fst).nodup_iff.2 b.keys_nodup
  have hperm : (ofList pairs).toList.Perm b.toList := (perm_ofList hnodup).trans h
  apply ext_get?
  intro key
  apply Option.ext
  intro value
  rw [← mem_toList_iff, ← mem_toList_iff, hperm.mem_iff]

theorem remove_insert_of_get?_eq_none {b : Bag α} {key : String} (h : b.get? key = none)
    (value : α) : (b.insert key value).remove key = (some value, b) := by
  rw [remove_eq, get?_insert, if_pos rfl]
  congr 1
  apply ext_get?
  intro k
  rw [get?_erase, get?_insert]
  by_cases hk : k = key
  · rw [if_pos hk, hk, h]
  · rw [if_neg hk, if_neg hk]

end Bag

/-- The attributes that a run leads to depend on the history of each key and on nothing else. Two
runs from the same attributes in which every key has the same history lead to the same pairs, and so
to the same texts of a dump. Two runs that change no key in common come to the same in every
interleaving. Hence attributes are made again from their pairs in any order; of pairs with repeated
keys just the last one of each key is kept, in the order of the bytes of the keys; and a new key that
is taken out again leaves the attributes as they were. -/
theorem attributes_told_by_histories :
    (∀ (steps : List BagStep) (b : Attributes) (key : String),
      (runBag steps b).get? key = runSlot (history key steps) (b.get? key)) ∧
    (∀ (steps steps' : List BagStep) (b : Attributes),
      (∀ key, history key steps = history key steps') →
        runBag steps b = runBag steps' b ∧
        (runBag steps b).toList = (runBag steps' b).toList ∧
        (runBag steps b).size = (runBag steps' b).size ∧
        (runBag steps b).toJson.dumpText = (runBag steps' b).toJson.dumpText ∧
        (runBag steps b).toJson.prettyDumpText = (runBag steps' b).toJson.prettyDumpText) ∧
    (∀ (left right steps : List BagStep) (b : Attributes), Interleaved left right steps →
      (∀ key, history key left = [] ∨ history key right = []) →
        runBag steps b = runBag right (runBag left b) ∧
        runBag steps b = runBag left (runBag right b)) ∧
    (∀ (b : Attributes) (pairs : List (String × Value)), pairs.Perm b.toList →
      Bag.ofList pairs = b) ∧
    (∀ pairs : List (String × Value),
      (∀ pair, pair ∈ (Bag.ofList pairs).toList ↔ Bag.IsLastPair pair pairs) ∧
      ((Bag.ofList pairs).keys.map utf8Bytes).Pairwise (· < ·)) ∧
    (∀ (b : Attributes) (key : String) (value : Value), b.get? key = none →
      (b.insert key value).remove key = (some value, b)) := by
  refine ⟨?_, ?_, ?_, ?_, ?_, ?_⟩
  · intro steps b key
    exact Bag.get?_runBag_eq_runSlot key steps b
  · intro steps steps' b h
    rw [runBag_congr h b]
    exact ⟨rfl, rfl, rfl, rfl, rfl⟩
  · intro left right steps b h hdisjoint
    rw [← runBag_append, ← runBag_append]
    constructor
    · apply runBag_congr
      intro key
      rw [h.history_eq (hdisjoint key), history_append]
    · apply runBag_congr
      intro key
      rw [h.history_eq (hdisjoint key), history_append]
      rcases hdisjoint key with hleft | hright
      · rw [hleft, List.nil_append, List.append_nil]
      · rw [hright, List.nil_append, List.append_nil]
  · intro b pairs h
    exact Bag.ofList_of_perm h
  · intro pairs
    exact ⟨fun pair => Bag.mem_toList_ofList_iff,
      List.pairwise_map.2 ((Bag.ofList pairs).pairwise_keys.imp utf8Bytes_lt)⟩
  · intro b key value h
    exact Bag.remove_insert_of_get?_eq_none h value

/-- A key that is set and edited while another one is put in and taken out again. -/
theorem attributes_told_by_two_histories :
    let f : Value → Value := fun _ => .bool true
    let onA : List BagStep := [.change "a" (.set .null), .change "a" (.edit f)]
    let onB : List BagStep := [.extend [("b", .null)], .change "b" .remove]
    let mixed : List BagStep := [.extend [("b", .null)], .change "a" (.set .null),
      .change "b" .remove, .change "a" (.edit f)]
    let b : Attributes := Bag.ofList [("a", .bool true), ("b", .null)]
    let pairs : List (String × Value) := [("b", .null), ("a", .bool true)]
    ((∀ key, history key mixed = history key (onA ++ onB)) ∧
      runBag mixed ∅ = runBag (onA ++ onB) ∅) ∧
    (Interleaved onA onB mixed ∧ (∀ key, history key onA = [] ∨ history key onB = []) ∧
      runBag mixed ∅ = runBag onB (runBag onA ∅)) ∧
    (pairs.Perm b.toList ∧ Bag.ofList pairs = b) ∧
    (b.get? "c" = none ∧ (b.insert "c" .null).remove "c" = (some .null, b)) := by
  intro f onA onB mixed b pairs
  obtain ⟨-, hcongr, hinterleaved, hperm, -, hremove⟩ := attributes_told_by_histories
  have hdisjoint : ∀ key, history key onA = [] ∨ history key onB = [] := by
    intro key
    by_cases hkey : "a" = key
    · right
      subst hkey
      rfl
    · left
      simp [history, BagStep.changesAt, onA, hkey]
  have hmixed : Interleaved onA onB mixed :=
    .right _ (.left _ (.right _ (.left _ .nil)))
  have hhistory : ∀ key, history key mixed = history key (onA ++ onB) := by
    intro key
    rw [hmixed.history_eq (hdisjoint key), history_append]
  have hpairs : pairs.Perm b.toList := List.Perm.swap _ _ []
  have hnew : b.get? "c" = none := by decide
  exact ⟨⟨hhistory, (hcongr mixed (onA ++ onB) ∅ hhistory).1⟩,
    ⟨hmixed, hdisjoint, (hinterleaved onA onB mixed ∅ hmixed hdisjoint).1⟩,
    ⟨hpairs, hperm b pairs hpairs⟩, hnew, hremove b "c" .null hnew⟩

end PhpTree
