import PhpTree.Proofs.Name.Slice
import PhpTree.Proofs.Word.Calculation

/-!
# Slices on machine words

The arithmetic of a slice can be done on signed words of 64 bits. Each addition and subtraction
stands behind a test that bounds its operands, so with as many parts as fit into memory nothing
overflows, whatever the arguments are; no negative word becomes an index, and parts are taken from a
proper range only. The slice is then the one that exact integers give.
-/

namespace PhpTree.Name

/-- What the arguments of a slice come to. -/
inductive SliceAnswer where
  /-- All behind the first separator, which needs no arithmetic. -/
  | withoutFirst
  | refused (bound : SliceBound) (value : Int)
  | empty
  /-- The parts from the index `start` up to the index `stop`. -/
  | run (start stop : Nat)
deriving DecidableEq

/-- The slice of a name by what its arguments come to. -/
def SliceAnswer.onName (x : Name) : SliceAnswer → Attempt (Option Name)
  | withoutFirst => return x.withoutFirst
  | refused bound value => x.refuseSlice bound value
  | empty => return none
  | run start stop => return some (x.withText (joinParts ((x.parts.take stop).drop start)))

/-! ## The arithmetic -/

/-- The index of the first part, where `n` is the number of parts. -/
def startOnWords (n offset : Int) : Calculation Int :=
  if offset < 0 then .compute (.add offset n) .done else .done offset

/-- The number of parts that `length` asks for. -/
def spanOnWords (n start length : Int) : Calculation Int :=
  if length < 0 then .compute (.add length n) fun sum => .compute (.sub sum start) .done
  else .done length

/-- The indices of `span` parts, as far as there are so many. -/
def runOnWords (n start span : Int) : Calculation SliceAnswer :=
  .toIndex start fun first =>
    .compute (.add start span) fun sum =>
      .toIndex (min sum n) fun stop =>
        .done (if first < stop then .run first stop else .empty)

/-- What the arguments of a slice of `count` parts come to. -/
def sliceOnWords (count : Nat) (offset : Int) (length : Option Int) : Calculation SliceAnswer :=
  if offset = 1 ∧ length = none then .done .withoutFirst
  else .compute (.count count) fun n =>
    (startOnWords n offset).andThen fun start =>
      if start < 0 ∨ n < start then .done (.refused .offset offset)
      else
        match length with
        | none => .compute (.sub n start) fun span => runOnWords n start span
        | some length =>
          (spanOnWords n start length).andThen fun span =>
            if span < 0 ∨ n < span then .done (.refused .length length)
            else runOnWords n start span

/-! ## Exact results -/

theorem exact_startOnWords (count : Nat) (offset : Int) :
    (startOnWords count offset).exact = startIndex count offset := by
  unfold startOnWords startIndex
  split <;> rfl

theorem exact_spanOnWords (count : Nat) (start length : Int) :
    (spanOnWords count start length).exact = spanLength count start length := by
  unfold spanOnWords spanLength
  split <;> rfl

theorem outside_iff {count : Nat} {n : Int} : n < 0 ∨ (count : Int) < n ↔ ¬ InBounds count n := by
  unfold InBounds
  omega

/-- The exact indices are those of a range, cut short at the last part. -/
theorem exact_runOnWords (count : Nat) (start span : Int) :
    (runOnWords count start span).exact =
      if start.toNat < min (start + span).toNat count then
        .run start.toNat (min (start + span).toNat count)
      else .empty := by
  have hmin : (min (start + span) (count : Int)).toNat = min (start + span).toNat count := by omega
  simp only [runOnWords, Calculation.exact, WordOp.exact, hmin]

theorem onName_exact_runOnWords (x : Name) (start span : Int) :
    (runOnWords x.parts.length start span).exact.onName x =
      return x.ofRange start.toNat (min (start + span).toNat x.parts.length) := by
  rw [exact_runOnWords, ofRange]
  split <;> rfl

theorem exact_sliceOnWords {count : Nat} {offset : Int} {length : Option Int}
    (h : ¬ (offset = 1 ∧ length = none)) :
    (sliceOnWords count offset length).exact =
      if ¬ InBounds count (startIndex count offset) then .refused .offset offset
      else
        match length with
        | none => (runOnWords count (startIndex count offset)
            (count - startIndex count offset)).exact
        | some length =>
          if ¬ InBounds count (spanLength count (startIndex count offset) length) then
            .refused .length length
          else (runOnWords count (startIndex count offset)
            (spanLength count (startIndex count offset) length)).exact := by
  rw [sliceOnWords, if_neg h, Calculation.exact, WordOp.exact, Calculation.exact_andThen,
    exact_startOnWords]
  simp only [outside_iff]
  split
  · rfl
  cases length with
  | none => rfl
  | some length =>
    simp only [Calculation.exact_andThen, exact_spanOnWords]
    split <;> rfl

/-- With exact integers the arithmetic gives the slice, for all integers as arguments. -/
theorem onName_exact_sliceOnWords (x : Name) (offset : Int) (length : Option Int) :
    (sliceOnWords x.parts.length offset length).exact.onName x = x.slice offset length := by
  by_cases hshort : offset = 1 ∧ length = none
  · rw [sliceOnWords, slice, if_pos hshort, if_pos hshort]
    rfl
  rw [exact_sliceOnWords hshort]
  by_cases hoffset : OffsetOutside x.parts.length offset
  · rw [if_pos fun hin => inBounds_startIndex_iff.1 hin hoffset, slice_of_offset length hoffset]
    rfl
  have hstart := inBounds_startIndex_iff.2 hoffset
  rw [if_neg (not_not_intro hstart)]
  cases length with
  | none =>
    have hstop : (startIndex x.parts.length offset +
        (x.parts.length - startIndex x.parts.length offset)).toNat = x.parts.length := by omega
    rw [onName_exact_runOnWords, slice_eq_ofRange hoffset (by simp), hstop, Nat.min_self, stopIndex]
  | some length =>
    by_cases hlength : LengthOutside x.parts.length (startIndex x.parts.length offset) length
    · simp only [if_pos fun hin => (inBounds_spanLength_iff hstart).1 hin hlength]
      rw [slice_of_length hoffset hlength]
      rfl
    · simp only [if_neg (not_not_intro ((inBounds_spanLength_iff hstart).2 hlength))]
      rw [onName_exact_runOnWords, slice_eq_ofRange hoffset (by simpa using hlength), stopIndex]

/-! ## Bounds -/

/-- Parts are taken from a proper range only. -/
theorem run_inside {count : Nat} {offset : Int} {length : Option Int} {start stop : Nat}
    (h : (sliceOnWords count offset length).exact = .run start stop) :
    start < stop ∧ stop ≤ count := by
  have hrun (first span : Int) (hrun : (runOnWords count first span).exact = .run start stop) :
      start < stop ∧ stop ≤ count := by
    rw [exact_runOnWords] at hrun
    split at hrun
    · next hlt =>
      cases hrun
      exact ⟨hlt, Nat.min_le_right _ _⟩
    · cases hrun
  by_cases hshort : offset = 1 ∧ length = none
  · rw [sliceOnWords, if_pos hshort] at h
    cases h
  rw [exact_sliceOnWords hshort] at h
  split at h
  · cases h
  split at h
  · exact hrun _ _ h
  · split at h
    · cases h
    · exact hrun _ _ h

section Safe

variable {count : Nat} {offset : Int} {length : Option Int}

theorem safe_startOnWords (hcount : count ≤ greatestWord) (hoffset : FitsWord offset) :
    (startOnWords count offset).Safe := by
  unfold startOnWords
  split
  · rw [Calculation.safe_compute_iff]
    refine ⟨?_, Calculation.safe_done _⟩
    unfold greatestWord at hcount
    unfold FitsWord at hoffset ⊢
    simp only [WordOp.exact]
    omega
  · exact Calculation.safe_done _

/-- Both the sum and what is left of it are bounded, as the start was found in bounds before. -/
theorem safe_spanOnWords {start length : Int} (hcount : count ≤ greatestWord)
    (hstart : InBounds count start) (hlength : FitsWord length) :
    (spanOnWords count start length).Safe := by
  unfold spanOnWords
  split
  · rw [Calculation.safe_compute_iff, Calculation.safe_compute_iff]
    unfold greatestWord at hcount
    unfold FitsWord at hlength ⊢
    unfold InBounds at hstart
    simp only [WordOp.exact]
    refine ⟨by omega, by omega, Calculation.safe_done _⟩
  · exact Calculation.safe_done _

/-- The sum of a start and a span that are both in bounds is at most twice the number of parts. -/
theorem safe_runOnWords {start span : Int} (hcount : 2 * count ≤ greatestWord)
    (hstart : InBounds count start) (hspan : InBounds count span) :
    (runOnWords count start span).Safe := by
  unfold runOnWords
  rw [Calculation.safe_toIndex_iff, Calculation.safe_compute_iff, Calculation.safe_toIndex_iff]
  unfold greatestWord at hcount
  unfold InBounds at hstart hspan
  unfold FitsWord
  simp only [WordOp.exact]
  refine ⟨by omega, by omega, by omega, Calculation.safe_done _⟩

theorem safe_sliceOnWords (hcount : 2 * count ≤ greatestWord) (hoffset : FitsWord offset)
    (hlength : ∀ l ∈ length, FitsWord l) : (sliceOnWords count offset length).Safe := by
  have hle : count ≤ greatestWord := by omega
  have hfits : FitsWord count := by
    unfold greatestWord at hle
    unfold FitsWord
    omega
  unfold sliceOnWords
  split
  · exact Calculation.safe_done _
  rw [Calculation.safe_compute_iff, Calculation.safe_andThen_iff]
  refine ⟨hfits, safe_startOnWords hle hoffset, ?_⟩
  simp only [WordOp.exact, exact_startOnWords, outside_iff]
  split
  · exact Calculation.safe_done _
  next hin =>
  have hstart := Decidable.not_not.1 hin
  cases length with
  | none =>
    have hspan : InBounds count (count - startIndex count offset) := by
      unfold InBounds at hstart ⊢
      omega
    have hspanFits : FitsWord (count - startIndex count offset) := by
      unfold FitsWord at hfits ⊢
      unfold InBounds at hspan
      omega
    exact Calculation.safe_compute_iff.2 ⟨hspanFits, safe_runOnWords hcount hstart hspan⟩
  | some length =>
    have hspan := safe_spanOnWords hle hstart (hlength length rfl)
    refine Calculation.safe_andThen_iff.2 ⟨hspan, ?_⟩
    simp only [exact_spanOnWords]
    split
    · exact Calculation.safe_done _
    · next hin => exact safe_runOnWords hcount hstart (Decidable.not_not.1 hin)

end Safe

/-- The arithmetic of a slice neither overflows nor leaves the parts, whatever words the arguments
are, if a word can count the parts sixteen times. Every result on the way fits a word and no
negative word becomes an index, so that exact integers, words that wrap around and words that are
checked come to the same, which is the slice; and the parts that are taken lie between two indices
in order. -/
theorem slice_fits_words (x : Name) (hcount : x.parts.length ≤ greatestWord / 16) (offset : Int64)
    (length : Option Int64) :
    let calculation := sliceOnWords x.parts.length offset.toInt (length.map Int64.toInt)
    (∀ v ∈ calculation.values, FitsWord v) ∧
    (∀ a ∈ calculation.casts, 0 ≤ a) ∧
    calculation.wrapped = calculation.exact ∧
    calculation.checked = some calculation.exact ∧
    calculation.exact.onName x = x.slice offset.toInt (length.map Int64.toInt) ∧
    ∀ start stop, calculation.exact = .run start stop → start < stop ∧ stop ≤ x.parts.length := by
  intro calculation
  have htwice : 2 * x.parts.length ≤ greatestWord := by omega
  have hlength : ∀ l ∈ length.map Int64.toInt, FitsWord l := by
    intro l hl
    obtain ⟨w, -, rfl⟩ := Option.map_eq_some_iff.1 hl
    exact fitsWord_toInt w
  have hsafe : calculation.Safe := safe_sliceOnWords htwice (fitsWord_toInt offset) hlength
  exact ⟨hsafe.values, fun a ha => (hsafe.casts a ha).1, Calculation.wrapped_eq_exact hsafe,
    Calculation.checked_eq_exact hsafe, x.onName_exact_sliceOnWords _ _, fun _ _ => run_inside⟩

/-- Of three parts. The least length there is, behind the last part: the sum and what is left of it
still fit, the latter just so, and the slice is refused. And a part counted from the end, with a
length that leaves one behind it: all sums are small, and two of them become the indices of a run.
-/
theorem slices_of_three_parts_fit_words :
    let x : Name := { text := "A\\\\B", kind := .relative, attributes := ∅ }
    let refused := sliceOnWords x.parts.length (3 : Int64).toInt (some Int64.minValue.toInt)
    let taken := sliceOnWords x.parts.length (-2 : Int64).toInt (some (-1 : Int64).toInt)
    x.parts.length ≤ greatestWord / 16 ∧
    (refused.values = [3, Int64.minValue.toInt + 3, Int64.minValue.toInt] ∧
      (∀ v ∈ refused.values, FitsWord v) ∧ refused.checked = some refused.exact) ∧
    (taken.values = [3, -2 + 3, -1 + 3, -1 + 3 - 1, 1 + 1] ∧ taken.casts = [1, 2] ∧
      (∀ v ∈ taken.values, FitsWord v) ∧ (∀ a ∈ taken.casts, 0 ≤ a) ∧
      taken.wrapped = taken.exact ∧ taken.exact = .run 1 2 ∧
      (SliceAnswer.run 1 2).onName x = x.slice (-2) (some (-1)) ∧ 1 < 2 ∧ 2 ≤ x.parts.length) := by
  intro x refused taken
  have hcount : x.parts.length ≤ greatestWord / 16 := by decide
  have hrun : taken.exact = .run 1 2 := by decide
  obtain ⟨hrefused, -, -, hchecked, -⟩ := x.slice_fits_words hcount 3 (some Int64.minValue)
  obtain ⟨hvalues, hcasts, hwrapped, -, hslice, hinside⟩ :=
    x.slice_fits_words hcount (-2) (some (-1))
  have hslice : taken.exact.onName x = x.slice (-2) (some (-1)) := hslice
  rw [hrun] at hslice
  exact ⟨hcount, ⟨by decide, hrefused, hchecked⟩,
    by decide, by decide, hvalues, hcasts, hwrapped, hrun, hslice, hinside 1 2 hrun⟩

end PhpTree.Name
