import PhpTree.Proofs.Name.Slice

/-!
# Ranges of slices

The arguments of a slice that is not refused stand for a range of parts, from one index up to
another. The range says all about the slice: arguments that are spelled differently, counted from
the other end or with a length that is cut short, give the same slice if their ranges are equal. The
slice that drops the first part never splits the name, and is one of them all the same.
-/

namespace PhpTree.Name

/-- The arguments `offset` and `length` are in bounds for `count` parts, and stand for the parts from
the index `start` up to the index `stop`. -/
structure Resolves (count : Nat) (offset : Int) (length : Option Int) (start stop : Nat) :
    Prop where
  start_le : start ≤ count
  start_eq : (start : Int) = if offset < 0 then offset + count else offset
  stop_of_none : length = none → stop = count
  /-- A length that reaches behind the last part is cut short, but it is never greater than
  `count`. -/
  stop_of_some : ∀ l, length = some l → ∃ span : Nat, span ≤ count ∧
    (span : Int) = (if l < 0 then l + count - start else l) ∧ stop = min (start + span) count

namespace Resolves

variable {count start stop : Nat} {offset : Int} {length : Option Int}

theorem startIndex_eq (h : Resolves count offset length start stop) :
    startIndex count offset = start :=
  h.start_eq.symm

theorem offset_inside (h : Resolves count offset length start stop) :
    ¬ OffsetOutside count offset := by
  apply inBounds_startIndex_iff.1
  rw [h.startIndex_eq]
  exact ⟨Int.natCast_nonneg start, Int.ofNat_le.2 h.start_le⟩

theorem length_inside (h : Resolves count offset length start stop) :
    ∀ l ∈ length, ¬ LengthOutside count (startIndex count offset) l := by
  intro l hl
  obtain ⟨span, hle, hspan, -⟩ := h.stop_of_some l hl
  apply (inBounds_spanLength_iff (inBounds_startIndex_iff.2 h.offset_inside)).1
  rw [h.startIndex_eq, spanLength, ← hspan]
  exact ⟨Int.natCast_nonneg span, Int.ofNat_le.2 hle⟩

theorem stopIndex_eq (h : Resolves count offset length start stop) :
    stopIndex count (startIndex count offset) length = stop := by
  rw [h.startIndex_eq]
  cases length with
  | none => exact (h.stop_of_none rfl).symm
  | some l =>
    obtain ⟨span, -, hspan, hstop⟩ := h.stop_of_some l rfl
    rw [stopIndex, spanLength, ← hspan, ← Int.natCast_add, Int.toNat_natCast, hstop]

theorem stop_le (h : Resolves count offset length start stop) : stop ≤ count := by
  rw [← h.stopIndex_eq]
  exact stopIndex_le _ _ _

end Resolves

theorem resolves_none {count start : Nat} {offset : Int} (hle : start ≤ count)
    (hstart : startIndex count offset = start) : Resolves count offset none start count where
  start_le := hle
  start_eq := hstart.symm
  stop_of_none _ := rfl
  stop_of_some l hl := by cases hl

theorem resolves_some {count start stop : Nat} {offset length : Int} (span : Nat)
    (hle : start ≤ count) (hspan : span ≤ count) (hstart : startIndex count offset = start)
    (hlength : spanLength count start length = span) (hstop : min (start + span) count = stop) :
    Resolves count offset (some length) start stop where
  start_le := hle
  start_eq := hstart.symm
  stop_of_none hl := by cases hl
  stop_of_some l hl := by
    cases hl
    exact ⟨span, hspan, hlength.symm, hstop.symm⟩

theorem exists_resolves {count : Nat} {offset : Int} {length : Option Int}
    (hoffset : ¬ OffsetOutside count offset)
    (hlength : ∀ l ∈ length, ¬ LengthOutside count (startIndex count offset) l) :
    ∃ start stop, Resolves count offset length start stop := by
  have hstart := inBounds_startIndex_iff.2 hoffset
  obtain ⟨start, hstartEq⟩ := Int.eq_ofNat_of_zero_le hstart.1
  rw [hstartEq] at hstart hlength
  have hstartLe : start ≤ count := Int.ofNat_le.1 hstart.2
  cases length with
  | none => exact ⟨start, count, resolves_none hstartLe hstartEq⟩
  | some length =>
    have hspan := (inBounds_spanLength_iff hstart).2 (hlength length rfl)
    obtain ⟨span, hspanEq⟩ := Int.eq_ofNat_of_zero_le hspan.1
    rw [hspanEq] at hspan
    exact ⟨start, _, resolves_some span hstartLe (Int.ofNat_le.1 hspan.2) hstartEq hspanEq rfl⟩

/-- A slice is the name of its range, and nothing is reported. -/
theorem slice_of_resolves {x : Name} {offset : Int} {length : Option Int} {start stop : Nat}
    (h : Resolves x.parts.length offset length start stop) :
    x.slice offset length = pure (x.ofRange start stop) := by
  rw [slice_eq_ofRange h.offset_inside h.length_inside, h.stopIndex_eq, h.startIndex_eq,
    Int.toNat_natCast]

/-- A range that is not empty is the name of the text that its parts join to. -/
theorem result_slice_of_text {x : Name} {offset : Int} {length : Option Int} {start stop : Nat}
    (h : Resolves x.parts.length offset length start stop) (hlt : start < stop) {text : String}
    (htext : joinParts ((x.parts.take stop).drop start) = text) :
    (x.slice offset length).result = .ok (some (x.withText text)) := by
  rw [slice_of_resolves h, Attempt.result_pure, ofRange, if_pos hlt, htext]

/-- A slice is refused for its offset, or else for its length, or it is the name of its range. -/
theorem slice_outcome (x : Name) (offset : Int) (length : Option Int) :
    (OffsetOutside x.parts.length offset ∧ x.slice offset length = x.refuseSlice .offset offset) ∨
    (∃ l, length = some l ∧ ¬ OffsetOutside x.parts.length offset ∧
      LengthOutside x.parts.length (startIndex x.parts.length offset) l ∧
      x.slice offset length = x.refuseSlice .length l) ∨
    ∃ start stop, Resolves x.parts.length offset length start stop ∧
      x.slice offset length = pure (x.ofRange start stop) := by
  by_cases hoffset : OffsetOutside x.parts.length offset
  · exact Or.inl ⟨hoffset, slice_of_offset length hoffset⟩
  right
  have hinside (hlength : ∀ l ∈ length,
      ¬ LengthOutside x.parts.length (startIndex x.parts.length offset) l) :
      ∃ start stop, Resolves x.parts.length offset length start stop ∧
        x.slice offset length = pure (x.ofRange start stop) := by
    obtain ⟨start, stop, hrange⟩ := exists_resolves hoffset hlength
    exact ⟨start, stop, hrange, slice_of_resolves hrange⟩
  cases length with
  | none => exact Or.inr (hinside (by simp))
  | some l =>
    by_cases hl : LengthOutside x.parts.length (startIndex x.parts.length offset) l
    · exact Or.inl ⟨l, rfl, hoffset, hl, slice_of_length hoffset hl⟩
    · exact Or.inr (hinside (by simpa using hl))

/-- A slice that is not refused has a range. -/
theorem resolves_of_result_eq_ok {x : Name} {offset : Int} {length : Option Int} {r : Option Name}
    (h : (x.slice offset length).result = .ok r) :
    ∃ start stop, Resolves x.parts.length offset length start stop ∧ r = x.ofRange start stop := by
  obtain ⟨-, hslice⟩ | ⟨l, -, -, -, hslice⟩ | ⟨start, stop, hrange, hslice⟩ :=
    x.slice_outcome offset length
  · rw [hslice] at h
    cases h
  · rw [hslice] at h
    cases h
  · rw [hslice, Attempt.result_pure] at h
    exact ⟨start, stop, hrange, (Except.ok.inj h).symm⟩

theorem parts_of_ofRange_eq_some {x r : Name} {start stop : Nat} (hstop : stop ≤ x.parts.length)
    (h : x.ofRange start stop = some r) : r.parts = (x.parts.take stop).drop start := by
  rw [ofRange_eq hstop] at h
  split at h
  · cases h
  · next hne =>
    cases h
    exact splitText_joinParts_of_subset hne
      (List.Subset.trans (List.drop_subset _ _) (List.take_subset _ _))

/-- The path of its own that drops the first part answers what the general path answers for the same
arguments: the parts behind the first one, or no name where there is just one part. It never refuses
and reports nothing. And whatever two pairs of arguments are, in bounds for the name, if they stand
for the same range they give the same answer. -/
theorem slice_told_by_range (x : Name) :
    (x.slice 1 none = x.generalSlice 1 none ∧
      (x.slice 1 none).result = .ok (x.ofRange 1 x.parts.length) ∧
      ((x.slice 1 none).result = .ok none ↔ x.parts.length = 1) ∧
      (x.slice 1 none).log = []) ∧
    ∀ (offset offset' : Int) (length length' : Option Int) (start stop : Nat),
      Resolves x.parts.length offset length start stop →
      Resolves x.parts.length offset' length' start stop →
        x.slice offset length = x.slice offset' length' := by
  have hone := x.one_le_length_parts
  have htail : x.slice 1 none = pure (x.ofRange 1 x.parts.length) :=
    slice_of_resolves (resolves_none hone rfl)
  refine ⟨⟨x.slice_eq_generalSlice 1 none, ?_, ?_, ?_⟩, ?_⟩
  · rw [htail, Attempt.result_pure]
  · rw [htail, Attempt.result_pure, Except.ok.injEq, ofRange]
    split
    · next hlt => exact ⟨fun h => (nomatch h), fun h => by omega⟩
    · next hlt => exact ⟨fun _ => by omega, fun _ => rfl⟩
  · rw [htail, Attempt.log_pure]
  · intro offset offset' length length' start stop h h'
    rw [slice_of_resolves h, slice_of_resolves h']

/-- In a text with an empty part in it, the two last of three parts: counted from the front up to the
end, or from the end with a length that is cut short. -/
theorem slice_last_two_told_by_range :
    let x : Name := { text := "A\\\\B", kind := .relative, attributes := ∅ }
    Resolves x.parts.length 1 none 1 3 ∧ Resolves x.parts.length (-2) (some 3) 1 3 ∧
      x.slice 1 none = x.slice (-2) (some 3) := by
  intro x
  have hcount : x.parts.length = 3 := by decide
  have htail : Resolves x.parts.length 1 none 1 3 := by
    rw [hcount]
    exact resolves_none (by decide) rfl
  have hlong : Resolves x.parts.length (-2) (some 3) 1 3 := by
    rw [hcount]
    refine ⟨by decide, by decide, fun hl => (nomatch hl), ?_⟩
    intro l hl
    cases hl
    exact ⟨3, by decide, by decide, by decide⟩
  exact ⟨htail, hlong, (slice_told_by_range x).2 1 (-2) none (some 3) 1 3 htail hlong⟩

end PhpTree.Name
