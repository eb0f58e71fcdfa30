import PhpTree.Proofs.Node.DocComment

/-!
# Positions

The coordinates of a node are kept among its attributes, each under a key of its own. Whatever is
done to the attributes, a coordinate is read from what stands under its key then: an integer that is
not negative, and nothing else. Recording a coordinate changes this one alone. A number that is too
great to be stored is recorded as the greatest one that is not.
-/

namespace PhpTree

/-! ## Stored coordinates -/

theorem Value.coordinate?_eq_some_iff {v : Value} {k : Nat} :
    v.coordinate? = some k ↔ ∃ n : Int64, v = .int n ∧ n.toInt = k := by
  cases v with
  | int n =>
    rw [coordinate?]
    split
    · next hn =>
      constructor
      · intro h
        exact ⟨n, rfl, by rw [← Option.some.inj h, Int.toNat_of_nonneg hn]⟩
      · rintro ⟨m, hm, hk⟩
        cases hm
        rw [hk, Int.toNat_natCast]
    · next hn =>
      refine iff_of_false (fun h => nomatch h) ?_
      rintro ⟨m, hm, hk⟩
      cases hm
      omega
  | _ => exact iff_of_false (fun h => nomatch h) fun ⟨_, h, _⟩ => nomatch h

/-- A number that is stored is read back, up to the greatest one that can be stored. -/
theorem Value.coordinate?_ofNat (n : Nat) : (ofNat n).coordinate? = some (min n maxInt) := by
  have hle : min n maxInt < 2 ^ 63 := Nat.lt_of_le_of_lt (Nat.min_le_right n maxInt) (by decide)
  exact coordinate?_eq_some_iff.2 ⟨_, rfl, Int64.toInt_ofNat_of_lt hle⟩

example : (Value.ofNat (2 ^ 64 - 1)).coordinate? = some (2 ^ 63 - 1) := by decide

/-- What is recorded of the place of a node, on its start and on its end. -/
inductive Coordinate where
  | startLine
  | endLine
  | startFilePos
  | endFilePos
  | startTokenPos
  | endTokenPos
deriving DecidableEq

namespace Coordinate

/-- The key that the coordinate is kept under. -/
def key : Coordinate → String
  | startLine => Key.startLine
  | endLine => Key.endLine
  | startFilePos => Key.startFilePos
  | endFilePos => Key.endFilePos
  | startTokenPos => Key.startTokenPos
  | endTokenPos => Key.endTokenPos

theorem key_injective : Function.Injective key := by
  intro c d
  cases c <;> cases d <;> decide

theorem key_ne_comments (c : Coordinate) : c.key ≠ Key.comments := by
  cases c <;> decide

section Read

variable {α : Type} [TreeNode α]

/-- The coordinate that a node shows. -/
def read? (c : Coordinate) (x : α) : Option Nat :=
  match c with
  | startLine => TreeNode.startLine? x
  | endLine => TreeNode.endLine? x
  | startFilePos => TreeNode.startFilePos? x
  | endFilePos => TreeNode.endFilePos? x
  | startTokenPos => TreeNode.startTokenPos? x
  | endTokenPos => TreeNode.endTokenPos? x

/-- A coordinate is read from what is stored under its own key. -/
theorem read?_eq (c : Coordinate) (x : α) :
    c.read? x = (TreeNode.attribute? x c.key).bind Value.coordinate? := by
  cases c <;> rfl

theorem read?_eq_some_iff {c : Coordinate} {x : α} {k : Nat} : c.read? x = some k ↔
    ∃ n : Int64, TreeNode.attribute? x c.key = some (.int n) ∧ n.toInt = k := by
  rw [read?_eq, Option.bind_eq_some_iff]
  constructor
  · rintro ⟨v, hv, hk⟩
    obtain ⟨n, rfl, hn⟩ := Value.coordinate?_eq_some_iff.1 hk
    exact ⟨n, hv, hn⟩
  · rintro ⟨n, hv, hn⟩
    exact ⟨.int n, hv, Value.coordinate?_eq_some_iff.2 ⟨n, rfl, hn⟩⟩

end Read

end Coordinate

theorem Position.isUnknown_iff {p : Position} :
    p.isUnknown = true ↔ p.line = none ∧ p.filePos = none ∧ p.tokenPos = none := by
  simp only [isUnknown, Bool.and_eq_true, Option.isNone_iff_eq_none, and_assoc]

/-! ## Recording a coordinate -/

/-- The steps on the node `x` that record `n` as the coordinate `c`, in all the ways to put a value
under its key. -/
inductive NodeStep.Records {α : Type} [TreeNode α] (x : α) : NodeStep → Coordinate → Nat → Prop
  | set (c : Coordinate) (n : Nat) : Records x (.change c.key (.set (Value.ofNat n))) c n
  /-- In the place of a value that is there. -/
  | edit {c : Coordinate} (n : Nat) (h : TreeNode.hasAttribute x c.key = true) :
      Records x (.change c.key (.edit fun _ => Value.ofNat n)) c n
  | assign (c : Coordinate) (n : Nat) :
      Records x (.change c.key (.editRead fun _ => Value.ofNat n)) c n
  | entry (c : Coordinate) (n : Nat) (default : Value) :
      Records x (.change c.key (.editOr default fun _ => Value.ofNat n)) c n
  | setLine (n : Nat) : Records x (.setLine n) .startLine n

/-- The step does nothing to what is under the key. -/
def NodeStep.Spares (key : String) (step : NodeStep) : Prop :=
  history key step.bagSteps = []

section Runs

variable {α : Type} [TreeNode α]

/-- Where there is a value already, to edit it is to set another one. -/
theorem modifyAttribute_of_hasAttribute {x : α} {key : String}
    (h : TreeNode.hasAttribute x key = true) (value : Value) :
    TreeNode.modifyAttribute x key (fun _ => value) = TreeNode.setAttribute x key value := by
  obtain ⟨old, hold⟩ := Option.isSome_iff_exists.1 h
  rw [TreeNode.modifyAttribute, TreeNode.setAttribute, TreeNode.mapAttributes,
    TreeNode.mapAttributes, Bag.modify, hold]

/-- A step that records a coordinate puts it under its key, and does nothing else. -/
theorem NodeStep.Records.value_onNode {x : α} {step : NodeStep} {c : Coordinate} {n : Nat}
    (h : NodeStep.Records x step c n) :
    (step.onNode x).value = TreeNode.setAttribute x c.key (Value.ofNat n) := by
  cases h with
  | edit n h => exact modifyAttribute_of_hasAttribute h (Value.ofNat n)
  | _ => rfl

theorem value_runOnNode_append (steps steps' : List NodeStep) (x : α) :
    (runOnNode (steps ++ steps') x).value = (runOnNode steps' (runOnNode steps x).value).value := by
  rw [runOnNode, List.foldlM_append]
  rfl

/-- The node `y` is the node `x` with `n` recorded as the coordinate `c`. -/
structure Recorded (c : Coordinate) (n : Nat) (x y : α) : Prop where
  /-- The number is cut down to the greatest one that can be stored. -/
  read : c.read? y = some (min n (2 ^ 63 - 1))
  coordinates : ∀ d, d ≠ c → d.read? y = d.read? x
  comments : TreeNode.comments y = TreeNode.comments x
  docComment? : TreeNode.docComment? y = TreeNode.docComment? x
  attribute? : ∀ key, key ≠ c.key → TreeNode.attribute? y key = TreeNode.attribute? x key

variable [LawfulTreeNode α]

theorem recorded_setAttribute (c : Coordinate) (n : Nat) (x : α) :
    Recorded c n x (TreeNode.setAttribute x c.key (Value.ofNat n)) := by
  have hsame : ∀ key, key ≠ c.key →
      TreeNode.attribute? (TreeNode.setAttribute x c.key (Value.ofNat n)) key =
        TreeNode.attribute? x key := by
    intro key hkey
    rw [TreeNode.attribute?_setAttribute, if_neg hkey]
  have hcomments : TreeNode.comments (TreeNode.setAttribute x c.key (Value.ofNat n)) =
      TreeNode.comments x := by
    have h := hsame Key.comments c.key_ne_comments.symm
    rw [TreeNode.attribute?, TreeNode.attribute?] at h
    rw [TreeNode.comments, TreeNode.comments, Bag.comments, Bag.comments, h]
  refine ⟨?_, ?_, hcomments, ?_, hsame⟩
  · rw [Coordinate.read?_eq, TreeNode.attribute?_setAttribute, if_pos rfl]
    exact Value.coordinate?_ofNat n
  · intro d hd
    rw [Coordinate.read?_eq, Coordinate.read?_eq, hsame d.key (mt (@Coordinate.key_injective d c) hd)]
  · rw [TreeNode.docComment?, TreeNode.docComment?, hcomments]

/-! ## Runs -/

/-- What a run leaves under a key is told by what its steps do to this key. -/
theorem attribute?_runOnNode (steps : List NodeStep) (x : α) (key : String) :
    TreeNode.attribute? (runOnNode steps x).value key =
      runSlot (history key (steps.flatMap NodeStep.bagSteps)) (TreeNode.attribute? x key) := by
  rw [value_runOnNode, TreeNode.attribute?, TreeNode.attributes_mapAttributes, runOnBag,
    Bag.get?_runBag_eq_runSlot]
  rfl

theorem history_eq_nil_of_spares {key : String} {steps : List NodeStep}
    (h : ∀ step ∈ steps, step.Spares key) : history key (steps.flatMap NodeStep.bagSteps) = [] := by
  rw [history, List.flatMap_assoc]
  exact List.flatMap_eq_nil_iff.2 h

/-- The last step that touches a coordinate tells it, if it records it. -/
theorem read?_runOnNode_of_records {x : α} {before after : List NodeStep} {step : NodeStep}
    {c : Coordinate} {n : Nat} (hstep : NodeStep.Records (runOnNode before x).value step c n)
    (hafter : ∀ s ∈ after, s.Spares c.key) :
    c.read? (runOnNode (before ++ step :: after) x).value = some (min n (2 ^ 63 - 1)) := by
  let y := (runOnNode before x).value
  have hrun : (runOnNode (before ++ step :: after) x).value =
      (runOnNode after (step.onNode y).value).value := value_runOnNode_append before _ x
  rw [hrun, Coordinate.read?_eq, attribute?_runOnNode, history_eq_nil_of_spares hafter, runSlot,
    List.foldl_nil, ← Coordinate.read?_eq, hstep.value_onNode]
  exact (recorded_setAttribute c n y).read

/-! ## What positions tell -/

/-- What the positions of a node tell, and what recording them changes. -/
structure TellsPositions (x : α) : Prop where
  /-- A coordinate is known just if an integer that is not negative is stored under its own key. -/
  read_iff : ∀ (c : Coordinate) (k : Nat), c.read? x = some k ↔
    ∃ n : Int64, TreeNode.attribute? x c.key = some (.int n) ∧ n.toInt = k
  recorded : ∀ step c n, NodeStep.Records x step c n → Recorded c n x (step.onNode x).value
  line : TreeNode.line? x = TreeNode.startLine? x
  startPosition_line : (TreeNode.startPosition x).line = TreeNode.line? x
  startPosition_isUnknown : (TreeNode.startPosition x).isUnknown = true ↔
    TreeNode.startLine? x = none ∧ TreeNode.startFilePos? x = none ∧
      TreeNode.startTokenPos? x = none
  endPosition_isUnknown : (TreeNode.endPosition x).isUnknown = true ↔
    TreeNode.endLine? x = none ∧ TreeNode.endFilePos? x = none ∧ TreeNode.endTokenPos? x = none

theorem tellsPositions (x : α) : TellsPositions x where
  read_iff _ _ := Coordinate.read?_eq_some_iff
  recorded step c n h := by
    rw [h.value_onNode]
    exact recorded_setAttribute c n x
  line := rfl
  startPosition_line := rfl
  startPosition_isUnknown := Position.isUnknown_iff
  endPosition_isUnknown := Position.isUnknown_iff

/-- What the positions of the node `x` tell after a run of steps. -/
structure ReadsBack (steps : List NodeStep) (x : α) : Prop where
  tells : TellsPositions (runOnNode steps x).value
  /-- Where nothing is done to a coordinate after it was recorded, it is read back. -/
  last : ∀ before step after c n, steps = before ++ step :: after →
    NodeStep.Records (runOnNode before x).value step c n → (∀ s ∈ after, s.Spares c.key) →
      c.read? (runOnNode steps x).value = some (min n (2 ^ 63 - 1))

theorem readsBack (steps : List NodeStep) (x : α) : ReadsBack steps x where
  tells := tellsPositions _
  last before step after c n hsteps hstep hafter := by
    rw [hsteps]
    exact read?_runOnNode_of_records hstep hafter

end Runs

/-- On nodes of every variant, after whatever run, the six coordinates are read from what is stored
under their own keys, and the last one that was recorded is read back, cut down to the greatest
integer that can be stored. Recording one changes neither the others nor comments nor any other
attribute. -/
theorem positions_read_back (steps : List NodeStep) :
    (∀ x : Name, ReadsBack steps x) ∧
    (∀ x : Interpolated, ReadsBack steps x) ∧
    (∀ x : StringPart, ReadsBack steps x) ∧
    (∀ x : InlineHtml, ReadsBack steps x) ∧
    ∀ x : Node, ReadsBack steps x :=
  ⟨readsBack steps, readsBack steps, readsBack steps, readsBack steps, readsBack steps⟩

/-- The last line counts, though comments and the end of the node are recorded behind it. -/
theorem line_read_back_behind_comment :
    let x : Name := { text := "A", kind := .plain, attributes := ∅ }
    let c : Comment := { kind := .plain, text := "/** */" }
    let steps : List NodeStep := [.setLine 7, .setLine (2 ^ 64 - 1), .setDocComment c,
      .change Coordinate.endLine.key (.set (Value.ofNat 9))]
    TreeNode.line? (runOnNode steps x).value = some (2 ^ 63 - 1) := by
  intro x c steps
  have hspares : ∀ s ∈ steps.drop 2, s.Spares Coordinate.startLine.key := by
    simp only [steps, List.drop_succ_cons, List.drop_zero, List.forall_mem_cons]
    exact ⟨rfl, rfl, List.forall_mem_nil _⟩
  exact ((positions_read_back steps).1 x).last [.setLine 7] (.setLine (2 ^ 64 - 1)) (steps.drop 2)
    .startLine (2 ^ 64 - 1) rfl (.setLine _) hspares

end PhpTree
