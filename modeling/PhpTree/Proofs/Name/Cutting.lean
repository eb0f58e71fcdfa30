import PhpTree.Proofs.Name.Joining
import PhpTree.Proofs.Name.Slice

/-!
# Cutting and joining names

A name that is cut at any point joins to its text again, also at the ends, where one of the slices
is no name. Conversely slices find the operands of a joined name, whether the cut is counted from
the front or from the end.
-/

namespace PhpTree

/-! ## Cuts of lists -/

section Cuts

variable {α : Type}

theorem itemsFrom_natCast (items : List α) (k : Nat) : itemsFrom items k = items.drop k := by
  have hk : ¬ (k : Int) < 0 := by omega
  rw [itemsFrom, if_neg hk, Int.toNat_natCast]

theorem itemsFrom_neg (items : List α) {k : Nat} (hpos : 0 < k) :
    itemsFrom items (-k) = items.drop (items.length - k) := by
  have hk : -(k : Int) < 0 := by omega
  rw [itemsFrom, if_pos hk, Int.natAbs_neg, Int.natAbs_natCast]

theorem itemsFor_natCast (items : List α) (k : Nat) :
    itemsFor items (some (k : Int)) = items.take k := by
  have hk : ¬ (k : Int) < 0 := by omega
  simp only [itemsFor, if_neg hk, Int.toNat_natCast]

theorem itemsFor_neg (items : List α) {k : Nat} (hpos : 0 < k) :
    itemsFor items (some (-(k : Int))) = items.take (items.length - k) := by
  have hk : -(k : Int) < 0 := by omega
  simp only [itemsFor, if_pos hk, Int.natAbs_neg, Int.natAbs_natCast]

end Cuts

namespace Name

/-! ## Cuts of names -/

/-- Slices up to a cut keep the parts in front of it. -/
theorem slice_front (x : Name) {length : Int} (hlow : -(x.parts.length : Int) ≤ length)
    (hhigh : length ≤ x.parts.length) :
    x.slice 0 (some length) = pure (x.ofRun (itemsFor x.parts (some length))) := by
  have hoffset : ¬ OffsetOutside x.parts.length 0 := by
    unfold OffsetOutside
    omega
  have hlength : ¬ LengthOutside x.parts.length (startIndex x.parts.length 0) length := by
    unfold LengthOutside startIndex
    omega
  rw [slice_of_inside hoffset (by simpa using hlength), arraySlice]
  exact congrArg (fun items => pure (x.ofRun (itemsFor items (some length))))
    (itemsFrom_natCast x.parts 0)

/-- Slices from a cut on keep the parts behind it. -/
theorem slice_back (x : Name) {offset : Int} (hlow : -(x.parts.length : Int) ≤ offset)
    (hhigh : offset ≤ x.parts.length) :
    x.slice offset none = pure (x.ofRun (itemsFrom x.parts offset)) := by
  have hoffset : ¬ OffsetOutside x.parts.length offset := by
    unfold OffsetOutside
    omega
  rw [slice_of_inside hoffset (by simp), arraySlice, itemsFor]

/-- The name of all parts of a text is the name of the text. -/
theorem ofRun_splitText (x : Name) (s : String) : x.ofRun (splitText s) = some (x.withText s) := by
  rw [ofRun, if_neg (splitText_ne_nil s), joinParts_splitText]

/-! ## Joining runs of parts -/

theorem joined_map_text (x : Name) (run : List String) :
    joined x.kind x.attributes (run.map .text) = .ok (x.ofRun run) := by
  have hany : ¬ (run.map NameInput.text).any NameInput.hasNoPart = true := by
    simp [NameInput.hasNoPart]
  have htexts : (run.map NameInput.text).map NameInput.preparedText = run := by
    simp [NameInput.preparedText, Function.comp_def]
  rw [joined_of_not_any hany, htexts]
  rfl

/-- The name of a run stands for the parts of the run, wherever it is joined. -/
theorem joined_ofRun (x : Name) (run : List String) (kind : NameKind) (attributes : Attributes)
    (before after : List NameInput) :
    joined kind attributes (before ++ (((x.ofRun run).map .name).toList ++ after)) =
      joined kind attributes (before ++ (run.map .text ++ after)) := by
  have hnested := @joined_nested kind attributes x.kind x.attributes before (run.map .text) after
  rw [joined_map_text] at hnested
  exact hnested

theorem result_concat_ofRun (x : Name) (front back : List String) (kind : NameKind)
    (attributes : Attributes) :
    (kind.concat ((x.ofRun front).map .name) ((x.ofRun back).map .name) attributes).result =
      joined kind attributes ((front ++ back).map .text) := by
  have hfront := x.joined_ofRun front kind attributes [] ((x.ofRun back).map .name).toList
  have hback := x.joined_ofRun back kind attributes (front.map .text) []
  rw [List.append_nil, List.append_nil] at hback
  rw [NameKind.result_concat, List.map_append]
  exact hfront.trans hback

/-- Cutting and joining are inverse. Cut a name anywhere, and joining the slices gives its text back,
with the kind and attributes asked for. Join two texts, and cutting behind the parts of the first
one, counted from the front or from the end, gives the texts back. -/
theorem cut_and_join (kind : NameKind) (attributes : Attributes) :
    (∀ (x : Name) (k : Int), 0 ≤ k → k ≤ x.parts.length →
      ∃ front back, (x.slice 0 (some k)).result = .ok front ∧ (x.slice k none).result = .ok back ∧
        (kind.concat (front.map .name) (back.map .name) attributes).result =
          .ok (some { text := x.text, kind := kind, attributes := attributes })) ∧
    (∀ a b : String,
      let named (s : String) : Name := { text := s, kind := kind, attributes := attributes }
      let na : Int := (splitText a).length
      let nb : Int := (splitText b).length
      ∃ c, (kind.concat (some (.text a)) (some (.text b)) attributes).result = .ok (some c) ∧
        (c.slice 0 (some na)).result = .ok (some (named a)) ∧
        (c.slice 0 (some (-nb))).result = .ok (some (named a)) ∧
        (c.slice na none).result = .ok (some (named b)) ∧
        (c.slice (-nb) none).result = .ok (some (named b))) := by
  constructor
  · intro x k hnonneg hle
    obtain ⟨k, rfl⟩ := Int.eq_ofNat_of_zero_le hnonneg
    refine ⟨x.ofRun (x.parts.take k), x.ofRun (x.parts.drop k), ?_, ?_, ?_⟩
    · rw [x.slice_front (by omega) hle, itemsFor_natCast, Attempt.result_pure]
    · rw [x.slice_back (by omega) hle, itemsFrom_natCast, Attempt.result_pure]
    · let whole : Name := { text := x.text, kind := kind, attributes := attributes }
      rw [result_concat_ofRun, List.take_append_drop]
      exact (whole.joined_map_text x.parts).trans (congrArg Except.ok (whole.ofRun_splitText x.text))
  · intro a b named na nb
    let c := named (joinTexts a b)
    have hparts : c.parts = splitText a ++ splitText b := splitText_joinTexts a b
    have hlength : c.parts.length = (splitText a).length + (splitText b).length := by
      rw [hparts, List.length_append]
    have hb : 0 < (splitText b).length := List.length_pos_iff.2 (splitText_ne_nil b)
    have hfront : c.ofRun (c.parts.take (splitText a).length) = some (named a) := by
      rw [hparts, List.take_left, c.ofRun_splitText]
      rfl
    have hback : c.ofRun (c.parts.drop (splitText a).length) = some (named b) := by
      rw [hparts, List.drop_left, c.ofRun_splitText]
      rfl
    have hcut : c.parts.length - (splitText b).length = (splitText a).length := by omega
    refine ⟨c, kind.result_concat_of_ok attributes rfl rfl, ?_, ?_, ?_, ?_⟩
    · rw [c.slice_front (by omega) (by omega), itemsFor_natCast, hfront, Attempt.result_pure]
    · rw [c.slice_front (by omega) (by omega), itemsFor_neg _ hb, hcut, hfront,
        Attempt.result_pure]
    · rw [c.slice_back (by omega) (by omega), itemsFrom_natCast, hback, Attempt.result_pure]
    · rw [c.slice_back (by omega) (by omega), itemsFrom_neg _ hb, hcut, hback,
        Attempt.result_pure]

/-- A cut behind the last part, of a text with an empty part in it: there is no name behind it, and
the one in front is the whole. -/
theorem cut_at_end_and_join :
    let x : Name := { text := "A\\\\B", kind := .relative, attributes := ∅ }
    (0 : Int) ≤ 3 ∧ (3 : Int) ≤ x.parts.length ∧
      ∃ front back, (x.slice 0 (some 3)).result = .ok front ∧ (x.slice 3 none).result = .ok back ∧
        (NameKind.plain.concat (front.map .name) (back.map .name) ∅).result =
          .ok (some { text := "A\\\\B", kind := .plain, attributes := ∅ }) := by
  intro x
  have hlow : (0 : Int) ≤ 3 := by decide
  have hhigh : (3 : Int) ≤ x.parts.length := by decide
  exact ⟨hlow, hhigh, (cut_and_join .plain ∅).1 x 3 hlow hhigh⟩

end Name

end PhpTree
