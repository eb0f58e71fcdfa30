import PhpTree.Name.Slice

/-!
# The parts of any text

A text has at least one part, no part holds a separator, and so every run of parts of a text is
found again when it is joined and split. The text behind the first separator has the parts behind
the first one; it exists exactly when there is more than one part.
-/

namespace PhpTree.Name

/-! ## Pieces of a split list -/

/-- No piece of a list that is split at `a` holds an `a`. -/
theorem not_mem_of_mem_splitOn {a : Char} {cs piece : List Char} (h : piece ∈ cs.splitOn a) :
    a ∉ piece := by
  induction cs generalizing piece with
  | nil =>
    rw [List.splitOn_nil, List.mem_singleton] at h
    simp [h]
  | cons c cs ih =>
    rw [List.splitOn_cons_eq_if_modifyHead] at h
    split at h
    · rcases List.mem_cons.1 h with rfl | h
      · exact List.not_mem_nil
      · exact ih h
    · next hne =>
      obtain ⟨first, rest, hsplit⟩ := List.exists_cons_of_ne_nil (List.splitOn_ne_nil a cs)
      rw [hsplit] at h ih
      rw [List.modifyHead_cons] at h
      rcases List.mem_cons.1 h with rfl | h
      · have hc : a ≠ c := fun he => hne (beq_iff_eq.2 he.symm)
        exact List.not_mem_cons_of_ne_of_not_mem hc (ih List.mem_cons_self)
      · exact ih (List.mem_cons_of_mem first h)

theorem splitOn_eq_takeWhile_cons (cs : List Char) :
    cs.splitOn separator =
      cs.takeWhile (· != separator) ::
        (textAfterFirst cs).elim [] fun rest => rest.splitOn separator := by
  induction cs with
  | nil => rfl
  | cons c cs ih =>
    rw [List.splitOn_cons_eq_if_modifyHead]
    by_cases hc : c = separator
    · simp [hc, textAfterFirst]
    · have hskip : textAfterFirst (c :: cs) = textAfterFirst cs := by
        simp [textAfterFirst, hc]
      rw [hskip, ih]
      simp [hc]

/-! ## Parts of names -/

theorem parts_ne_nil (x : Name) : x.parts ≠ [] :=
  splitText_ne_nil x.text

theorem one_le_length_parts (x : Name) : 1 ≤ x.parts.length :=
  List.length_pos_iff.2 x.parts_ne_nil

theorem separator_not_mem_of_mem_splitText {s part : String} (h : part ∈ splitText s) :
    separator ∉ part.toList := by
  have hpiece : part.toList ∈ s.toList.splitOn separator := by
    rw [← map_toList_splitText]
    exact List.mem_map_of_mem h
  exact not_mem_of_mem_splitOn hpiece

/-- A text without separators is its only part. -/
theorem splitText_eq_singleton_iff {s : String} :
    splitText s = [s] ↔ separator ∉ s.toList := by
  constructor
  · intro h
    have hmem : s ∈ splitText s := by
      rw [h]
      exact List.mem_singleton_self s
    exact separator_not_mem_of_mem_splitText hmem
  · intro h
    rw [splitText, List.splitOn_eq_singleton h, List.map_singleton, String.ofList_toList]

/-- Parts that are taken from a name are the parts of the text they join to. -/
theorem splitText_joinParts_of_subset {x : Name} {run : List String} (hne : run ≠ [])
    (h : run ⊆ x.parts) : splitText (joinParts run) = run :=
  splitText_joinParts hne fun _ hpart => separator_not_mem_of_mem_splitText (h hpart)

/-- The text behind the first separator is what the parts behind the first one join to. -/
theorem textAfterFirst_eq (x : Name) :
    (textAfterFirst x.text.toList).map String.ofList =
      if x.parts.tail = [] then none else some (joinParts x.parts.tail) := by
  have hparts : x.parts = String.ofList (x.text.toList.takeWhile (· != separator)) ::
      (textAfterFirst x.text.toList).elim [] fun rest =>
        (rest.splitOn separator).map String.ofList := by
    rw [parts, splitText, splitOn_eq_takeWhile_cons]
    cases textAfterFirst x.text.toList <;> rfl
  rw [hparts, List.tail_cons]
  cases textAfterFirst x.text.toList with
  | none => rfl
  | some rest =>
    have hsplit : (rest.splitOn separator).map String.ofList = splitText (String.ofList rest) := by
      rw [splitText, String.toList_ofList]
    rw [Option.map_some, Option.elim_some, hsplit, if_neg (splitText_ne_nil _),
      joinParts_splitText]

end PhpTree.Name
