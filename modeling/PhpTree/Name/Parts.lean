/-!
# Parts of names

A text splits at its separators into parts, at least one, and joining them gives the text back. A
part may be empty. Joining parts and splitting again gives the same parts only if no separator is
in them.
-/

namespace PhpTree

/-- The character between the parts of a name. -/
def separator : Char := '\\'

namespace Name

/-- The texts that separators split `s` into. -/
def splitText (s : String) : List String :=
  (s.toList.splitOn separator).map String.ofList

/-- The text of parts that separators join. -/
def joinParts (parts : List String) : String :=
  String.ofList (List.intercalate [separator] (parts.map String.toList))

/-- Two texts with a separator between them. -/
def joinTexts (s t : String) : String :=
  s ++ String.singleton separator ++ t

theorem splitText_ne_nil (s : String) : splitText s ≠ [] := by
  rw [splitText, Ne, List.map_eq_nil_iff]
  exact List.splitOn_ne_nil separator s.toList

theorem map_toList_splitText (s : String) :
    (splitText s).map String.toList = s.toList.splitOn separator := by
  rw [splitText, List.map_map]
  exact (List.map_congr_left fun _ _ => String.toList_ofList).trans (List.map_id _)

/-- Splitting loses nothing. -/
theorem joinParts_splitText (s : String) : joinParts (splitText s) = s := by
  rw [joinParts, map_toList_splitText, List.intercalate_splitOn, String.ofList_toList]

/-- Parts that hold no separator are found again. -/
theorem splitText_joinParts {parts : List String} (hne : parts ≠ [])
    (h : ∀ part ∈ parts, separator ∉ part.toList) : splitText (joinParts parts) = parts := by
  rw [splitText, joinParts, String.toList_ofList, List.splitOn_intercalate, List.map_map]
  · exact (List.map_congr_left fun _ _ => String.ofList_toList).trans (List.map_id _)
  · simpa using h
  · simpa using hne

/-- A separator between two texts keeps their parts apart. -/
theorem splitText_joinTexts (s t : String) :
    splitText (joinTexts s t) = splitText s ++ splitText t := by
  rw [joinTexts, splitText, splitText, splitText, ← List.map_append,
    ← List.splitOn_append_cons_self]
  simp

end Name

end PhpTree
