import Mathlib.Tactic.TFAE
import PhpTree.Proofs.Name.Cutting

/-!
# The ends of a name

The first part, the last part and whether there is more than one are read off the text, each in a
way of its own: up to the first separator, from the last separator on, and by looking for any. The
slice that drops the first part looks for a separator too, and the other slices split the text. All
of them agree on every text, whatever parts of it are empty.
-/

namespace PhpTree.Name

/-! ## A single part -/

/-- A text that is one of its parts is the only one. -/
theorem parts_eq_singleton_of_mem {x : Name} (h : x.text ∈ x.parts) : x.parts = [x.text] :=
  splitText_eq_singleton_iff.2 (separator_not_mem_of_mem_splitText h)

theorem length_parts_eq_one_iff {x : Name} : x.parts.length = 1 ↔ x.parts = [x.text] := by
  constructor
  · intro h
    obtain ⟨part, hpart⟩ := List.length_eq_one_iff.1 h
    have htext : joinParts x.parts = x.text := joinParts_splitText x.text
    rw [hpart, joinParts_singleton] at htext
    rw [hpart, htext]
  · intro h
    rw [h, List.length_singleton]

theorem isQualified_eq_false_iff {x : Name} : x.isQualified = false ↔ x.parts = [x.text] := by
  rw [parts, splitText_eq_singleton_iff, isQualified, ← Bool.not_eq_true, List.contains_iff_mem]

/-! ## The first and the last part -/

theorem exists_parts_eq_cons (x : Name) : ∃ behind, x.parts = x.first :: behind :=
  List.head?_eq_some_iff.1 x.head?_parts

theorem exists_parts_eq_concat (x : Name) : ∃ front, x.parts = front ++ [x.last] :=
  List.getLast?_eq_some_iff.1 x.getLast?_parts

theorem first_eq_text_iff {x : Name} : x.first = x.text ↔ x.parts = [x.text] := by
  obtain ⟨behind, hparts⟩ := x.exists_parts_eq_cons
  constructor
  · intro h
    apply parts_eq_singleton_of_mem
    rw [hparts, h]
    exact List.mem_cons_self
  · intro h
    rw [hparts] at h
    exact (List.cons.inj h).1

theorem last_eq_text_iff {x : Name} : x.last = x.text ↔ x.parts = [x.text] := by
  obtain ⟨front, hparts⟩ := x.exists_parts_eq_concat
  constructor
  · intro h
    apply parts_eq_singleton_of_mem
    rw [hparts, h]
    exact List.mem_concat_self
  · intro h
    have hlast := x.getLast?_parts
    rw [h, List.getLast?_singleton] at hlast
    exact (Option.some.inj hlast).symm

/-- What stands behind the first part is joined to it by a separator. -/
theorem joinTexts_first {x : Name} {behind : List String} (hne : behind ≠ [])
    (h : x.parts = x.first :: behind) : joinTexts x.first (joinParts behind) = x.text := by
  rw [← joinParts_cons_of_ne_nil x.first hne, ← h]
  exact joinParts_splitText x.text

theorem joinTexts_last {x : Name} {front : List String} (hne : front ≠ [])
    (h : x.parts = front ++ [x.last]) : joinTexts (joinParts front) x.last = x.text := by
  rw [← joinParts_pair, joinParts_joinParts_cons hne, ← h]
  exact joinParts_splitText x.text

/-! ## Slices at the ends -/

theorem ofRun_singleton (x : Name) (s : String) : x.ofRun [s] = some (x.withText s) := by
  rw [ofRun, if_neg (List.cons_ne_nil s []), joinParts_singleton]

theorem slice_first (x : Name) : x.slice 0 (some 1) = pure (some (x.withText x.first)) := by
  have hone := x.one_le_length_parts
  obtain ⟨behind, hparts⟩ := x.exists_parts_eq_cons
  have hfirst : itemsFor x.parts (some 1) = [x.first] := by
    rw [← Int.natCast_one, itemsFor_natCast, hparts]
    rfl
  rw [x.slice_front (by omega) (by omega), hfirst, ofRun_singleton]

theorem slice_last (x : Name) : x.slice (-1) none = pure (some (x.withText x.last)) := by
  have hone := x.one_le_length_parts
  obtain ⟨front, hparts⟩ := x.exists_parts_eq_concat
  have hlast : itemsFrom x.parts (-1) = [x.last] := by
    rw [← Int.natCast_one, itemsFrom_neg _ Nat.one_pos, hparts, List.length_append,
      List.length_singleton, Nat.add_sub_cancel, List.drop_left]
  rw [x.slice_back (by omega) (by omega), hlast, ofRun_singleton]

/-- The path of its own that drops the first part leaves the parts behind it. -/
theorem slice_behind_first (x : Name) : x.slice 1 none = pure (x.ofRun x.parts.tail) := by
  rw [slice, if_pos ⟨rfl, rfl⟩, withoutFirst_eq]

theorem slice_before_last (x : Name) :
    x.slice 0 (some (-1)) = pure (x.ofRun x.parts.dropLast) := by
  have hone := x.one_le_length_parts
  have hfront : itemsFor x.parts (some (-1)) = x.parts.dropLast := by
    rw [← Int.natCast_one, itemsFor_neg _ Nat.one_pos, List.dropLast_eq_take]
  rw [x.slice_front (by omega) (by omega), hfront]

theorem slice_behind_first_eq_none_iff {x : Name} :
    (x.slice 1 none).result = .ok none ↔ x.parts = [x.text] := by
  rw [slice_behind_first, Attempt.result_pure, Except.ok.injEq, ofRun_eq_none_iff,
    ← length_parts_eq_one_iff]
  obtain ⟨behind, hparts⟩ := x.exists_parts_eq_cons
  rw [hparts, List.tail_cons, List.length_cons, Nat.add_eq_right, List.length_eq_zero_iff]

/-! ## Agreement -/

/-- All ways to look at the ends of a name agree. What stands before the first separator is the first
part and the slice of one part from the start, and what stands behind the last separator is the last
part and the slice of one part from the end. That a name is unqualified, that it is not qualified,
that it has one part, which is its text, that nothing is left without the first part, and that its
text is the first part, or the last part, are one condition, for names of every kind. A qualified
name is its first part joined to the slice behind it, and the slice before its last part joined to
that part. -/
theorem ends_agree (x : Name) :
    (x.parts.head? = some x.first ∧
      (x.slice 0 (some 1)).result = .ok (some (x.withText x.first))) ∧
    (x.parts.getLast? = some x.last ∧
      (x.slice (-1) none).result = .ok (some (x.withText x.last))) ∧
    [x.parts = [x.text], x.isUnqualified = true, x.isQualified = false, x.parts.length = 1,
      (x.slice 1 none).result = .ok none, x.first = x.text, x.last = x.text].TFAE ∧
    (x.isQualified = true → ∃ front behind,
      (x.slice 1 none).result = .ok (some behind) ∧
      (x.slice 0 (some (-1))).result = .ok (some front) ∧
      joinTexts x.first behind.text = x.text ∧ joinTexts front.text x.last = x.text) := by
  refine ⟨⟨x.head?_parts, ?_⟩, ⟨x.getLast?_parts, ?_⟩, ?_, ?_⟩
  · rw [slice_first, Attempt.result_pure]
  · rw [slice_last, Attempt.result_pure]
  · tfae_have 3 ↔ 1 := isQualified_eq_false_iff
    tfae_have 2 ↔ 3 := by rw [isUnqualified, Bool.not_eq_true']
    tfae_have 4 ↔ 1 := length_parts_eq_one_iff
    tfae_have 5 ↔ 1 := slice_behind_first_eq_none_iff
    tfae_have 6 ↔ 1 := first_eq_text_iff
    tfae_have 7 ↔ 1 := last_eq_text_iff
    tfae_finish
  · intro hqualified
    have hmany : x.parts.length ≠ 1 := by
      intro hone
      have hnot := isQualified_eq_false_iff.2 (length_parts_eq_one_iff.1 hone)
      rw [hqualified] at hnot
      cases hnot
    obtain ⟨behind, hbehind⟩ := x.exists_parts_eq_cons
    obtain ⟨front, hfront⟩ := x.exists_parts_eq_concat
    have hbehindNe : behind ≠ [] := by
      rintro rfl
      exact hmany (congrArg List.length hbehind)
    have hfrontNe : front ≠ [] := by
      rintro rfl
      exact hmany (congrArg List.length hfront)
    refine ⟨x.withText (joinParts front), x.withText (joinParts behind), ?_, ?_,
      joinTexts_first hbehindNe hbehind, joinTexts_last hfrontNe hfront⟩
    · rw [slice_behind_first, Attempt.result_pure, hbehind, List.tail_cons, ofRun,
        if_neg hbehindNe]
    · rw [slice_before_last, Attempt.result_pure, hfront, List.dropLast_concat, ofRun,
        if_neg hfrontNe]

/-- In a text that ends with two separators the last part is empty, and so is the one before it. -/
theorem ends_agree_on_empty_parts :
    let x : Name := { text := "A\\\\", kind := .fullyQualified, attributes := ∅ }
    x.isQualified = true ∧ ∃ front behind,
      (x.slice 1 none).result = .ok (some behind) ∧
      (x.slice 0 (some (-1))).result = .ok (some front) ∧
      joinTexts x.first behind.text = "A\\\\" ∧ joinTexts front.text x.last = "A\\\\" := by
  intro x
  have hqualified : x.isQualified = true := by decide
  exact ⟨hqualified, x.ends_agree.2.2.2 hqualified⟩

end PhpTree.Name
