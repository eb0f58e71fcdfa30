import PhpTree.Proofs.Text.AsciiCase

/-!
# Special class names in any case

The special class names are of plain ASCII, so it does not matter whether the case of ASCII letters is
ignored or the text is mapped to its full lowercase form before it is compared.
-/

namespace PhpTree

theorem plainLowercase_of_mem_specialClassNames :
    ∀ special ∈ specialClassNames, Text.PlainLowercase special := by
  decide

theorem separator_not_mem_of_mem_specialClassNames :
    ∀ special ∈ specialClassNames, separator ∉ special.toList := by
  decide

namespace Name

/-- A text that is equal to a special class name, case apart, has no separator. -/
theorem isUnqualified_of_equalIgnoringAsciiCase {x : Name} {special : String}
    (hspecial : special ∈ specialClassNames)
    (h : equalIgnoringAsciiCase x.text special = true) : x.isUnqualified = true := by
  rw [isUnqualified, isQualified, Bool.not_eq_true', List.contains_eq_mem,
    decide_eq_false_iff_not]
  intro hsep
  have hmem : separator.toLower ∈ x.text.toList.map Char.toLower := List.mem_map_of_mem hsep
  rw [(plainLowercase_of_mem_specialClassNames special hspecial).equalIgnoringAsciiCase_iff.1 h]
    at hmem
  exact separator_not_mem_of_mem_specialClassNames special hspecial hmem

theorem isSpecialClassName_iff {x : Name} : x.isSpecialClassName = true ↔
    ∃ special ∈ specialClassNames, equalIgnoringAsciiCase x.text special = true := by
  rw [isSpecialClassName, Bool.and_eq_true, List.any_eq_true]
  refine ⟨And.right, fun h => ⟨?_, h⟩⟩
  obtain ⟨special, hspecial, hequal⟩ := h
  exact isUnqualified_of_equalIgnoringAsciiCase hspecial hequal

/-- A name is a special class name just if its lowercase form is one of the three, and just if the
name of its lowercase form is one, whatever the kinds and attributes of the two are. A name that is
one has no character beyond ASCII and no separator. -/
theorem special_class_names_by_lowercase (x : Name) :
    (x.isSpecialClassName = true ↔ x.lowercaseText ∈ ["self", "parent", "static"]) ∧
    (∀ (kind : NameKind) (attributes : Attributes),
      let y : Name := { text := x.lowercaseText, kind := kind, attributes := attributes }
      y.isSpecialClassName = x.isSpecialClassName) ∧
    (x.isSpecialClassName = true →
      (∀ c ∈ x.text.toList, c.toNat < 0x80) ∧ x.isQualified = false) := by
  refine ⟨?_, fun kind attributes => ?_, fun h => ?_⟩
  · rw [isSpecialClassName_iff]
    constructor
    · rintro ⟨special, hspecial, hequal⟩
      have hlower := plainLowercase_of_mem_specialClassNames special hspecial
      rw [lowercaseText, hlower.lowercase_eq_iff.2 hequal]
      exact hspecial
    · intro hmem
      have hlower := plainLowercase_of_mem_specialClassNames x.lowercaseText hmem
      exact ⟨x.lowercaseText, hmem, hlower.lowercase_eq_iff.1 rfl⟩
  · rw [Bool.eq_iff_iff, isSpecialClassName_iff, isSpecialClassName_iff]
    have hfold : ∀ special ∈ specialClassNames,
        equalIgnoringAsciiCase x.lowercaseText special = equalIgnoringAsciiCase x.text special :=
      fun special hspecial =>
        (plainLowercase_of_mem_specialClassNames special hspecial).equalIgnoringAsciiCase_lowercase
    constructor
    · rintro ⟨special, hspecial, hequal⟩
      exact ⟨special, hspecial, (hfold special hspecial).symm.trans hequal⟩
    · rintro ⟨special, hspecial, hequal⟩
      exact ⟨special, hspecial, (hfold special hspecial).trans hequal⟩
  · obtain ⟨special, hspecial, hequal⟩ := isSpecialClassName_iff.1 h
    have hlower := plainLowercase_of_mem_specialClassNames special hspecial
    have hunqualified := isUnqualified_of_equalIgnoringAsciiCase hspecial hequal
    rw [isUnqualified, Bool.not_eq_true'] at hunqualified
    exact ⟨fun c hc => hlower.lt_of_equalIgnoringAsciiCase hequal hc, hunqualified⟩

/-- A special class name in capitals but for one letter, behind the word for the current namespace. -/
theorem special_class_name_in_capitals :
    let x : Name := { text := "pARENT", kind := .relative, attributes := ∅ }
    x.isSpecialClassName = true ∧ x.lowercaseText ∈ ["self", "parent", "static"] ∧
      (∀ c ∈ x.text.toList, c.toNat < 0x80) ∧ x.isQualified = false := by
  intro x
  obtain ⟨hlower, -, hascii⟩ := x.special_class_names_by_lowercase
  have hx : x.isSpecialClassName = true := by decide
  exact ⟨hx, hlower.1 hx, hascii hx⟩

end Name

end PhpTree
