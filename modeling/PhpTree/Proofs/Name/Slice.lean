import PhpTree.Proofs.Name.Parts

/-!
# What a slice of a name is

A slice of a name has the parts that slicing the list of its parts would keep (`arraySlice`), and
is refused exactly when an argument points outside the parts: the offset first, whatever the
length. The path of its own that drops the first part gives what the general one gives.
-/

namespace PhpTree

/-! ## Slices of lists -/

section ArraySlice

variable {α : Type}

/-- The items from `offset` on; a negative offset counts from the end, and starts at the first item
when it counts beyond it. -/
def itemsFrom (items : List α) (offset : Int) : List α :=
  if offset < 0 then items.drop (items.length - offset.natAbs) else items.drop offset.toNat

/-- The first `length` items, as far as there are so many; a negative length leaves so many items at
the end, and no length keeps all. -/
def itemsFor (items : List α) : Option Int → List α
  | none => items
  | some length =>
    if length < 0 then items.take (items.length - length.natAbs) else items.take length.toNat

/-- The slice of a list from `offset` on, for `length` items or up to the end. -/
def arraySlice (items : List α) (offset : Int) (length : Option Int) : List α :=
  itemsFor (itemsFrom items offset) length

theorem itemsFrom_subset (items : List α) (offset : Int) : itemsFrom items offset ⊆ items := by
  unfold itemsFrom
  split <;> exact List.drop_subset _ _

theorem itemsFor_subset (items : List α) (length : Option Int) : itemsFor items length ⊆ items := by
  unfold itemsFor
  split
  · exact List.Subset.refl items
  · split <;> exact List.take_subset _ _

theorem arraySlice_subset (items : List α) (offset : Int) (length : Option Int) :
    arraySlice items offset length ⊆ items :=
  List.Subset.trans (itemsFor_subset _ length) (itemsFrom_subset items offset)

end ArraySlice

namespace Name

/-! ## Bounds -/

/-- Whether an offset points in front of the first of `count` parts or behind the last one. -/
def OffsetOutside (count : Nat) (offset : Int) : Prop :=
  offset < -(count : Int) ∨ (count : Int) < offset

/-- Whether a length asks for more than `count` parts, or leaves out more parts than there are
behind the index `start`. -/
def LengthOutside (count : Nat) (start length : Int) : Prop :=
  (count : Int) < length ∨ length < -((count : Int) - start)

instance (count : Nat) (offset : Int) : Decidable (OffsetOutside count offset) :=
  inferInstanceAs (Decidable (_ ∨ _))

instance (count : Nat) (start length : Int) : Decidable (LengthOutside count start length) :=
  inferInstanceAs (Decidable (_ ∨ _))

theorem inBounds_startIndex_iff {count : Nat} {offset : Int} :
    InBounds count (startIndex count offset) ↔ ¬ OffsetOutside count offset := by
  unfold InBounds startIndex OffsetOutside
  split <;> omega

theorem inBounds_spanLength_iff {count : Nat} {start length : Int} (h : InBounds count start) :
    InBounds count (spanLength count start length) ↔ ¬ LengthOutside count start length := by
  unfold InBounds at h
  unfold InBounds spanLength LengthOutside
  split <;> omega

/-! ## The range of a slice -/

/-- The index behind the last part of a slice whose arguments are in bounds. -/
def stopIndex (count : Nat) (start : Int) : Option Int → Nat
  | none => count
  | some length => min (start + spanLength count start length).toNat count

theorem sliceRange_of_offset {x : Name} {offset : Int} (length : Option Int)
    (h : OffsetOutside x.parts.length offset) :
    x.sliceRange offset length = x.refuseSlice .offset offset := by
  have hstart : ¬ InBounds x.parts.length (startIndex x.parts.length offset) :=
    fun hin => inBounds_startIndex_iff.1 hin h
  unfold sliceRange
  rw [if_pos hstart]

theorem sliceRange_of_length {x : Name} {offset length : Int}
    (h : ¬ OffsetOutside x.parts.length offset)
    (hl : LengthOutside x.parts.length (startIndex x.parts.length offset) length) :
    x.sliceRange offset (some length) = x.refuseSlice .length length := by
  have hstart := inBounds_startIndex_iff.2 h
  have hspan : ¬ InBounds x.parts.length
      (spanLength x.parts.length (startIndex x.parts.length offset) length) :=
    fun hin => (inBounds_spanLength_iff hstart).1 hin hl
  unfold sliceRange
  rw [if_neg (not_not_intro hstart)]
  simp only [if_pos hspan]

/-- Arguments in bounds give a range, and nothing is reported. -/
theorem sliceRange_of_inside {x : Name} {offset : Int} {length : Option Int}
    (h : ¬ OffsetOutside x.parts.length offset)
    (hl : ∀ l ∈ length, ¬ LengthOutside x.parts.length (startIndex x.parts.length offset) l) :
    x.sliceRange offset length = pure ((startIndex x.parts.length offset).toNat,
      stopIndex x.parts.length (startIndex x.parts.length offset) length) := by
  have hstart := inBounds_startIndex_iff.2 h
  unfold sliceRange
  rw [if_neg (not_not_intro hstart)]
  cases length with
  | none => rfl
  | some l =>
    have hspan := (inBounds_spanLength_iff hstart).2 (hl l rfl)
    simp only [if_neg (not_not_intro hspan)]
    rfl

/-- The range of a slice holds the parts that slicing the list of parts keeps. -/
theorem drop_take_eq_arraySlice {parts : List String} {offset : Int} {length : Option Int}
    (h : ¬ OffsetOutside parts.length offset)
    (hl : ∀ l ∈ length, ¬ LengthOutside parts.length (startIndex parts.length offset) l) :
    (parts.take (stopIndex parts.length (startIndex parts.length offset) length)).drop
      (startIndex parts.length offset).toNat = arraySlice parts offset length := by
  have hin := inBounds_startIndex_iff.2 h
  have hdrop : itemsFrom parts offset = parts.drop (startIndex parts.length offset).toNat := by
    unfold itemsFrom startIndex
    unfold OffsetOutside at h
    split
    · congr 1
      omega
    · rfl
  rw [arraySlice, hdrop, List.drop_take]
  unfold InBounds at hin
  generalize startIndex parts.length offset = start at hin hl ⊢
  cases length with
  | none =>
    apply List.take_of_length_le
    rw [List.length_drop]
    exact Nat.le_refl _
  | some l =>
    have hin' := hl l rfl
    unfold LengthOutside at hin'
    simp only [itemsFor, stopIndex, spanLength]
    split
    · congr 1
      rw [List.length_drop]
      omega
    · -- A length beyond the end takes all that is left, so the two counts need not be equal.
      rw [List.take_eq_take_iff, List.length_drop]
      omega

/-! ## The name of a range -/

/-- A range is a name unless no part is in it. -/
theorem ofRange_eq {x : Name} {start stop : Nat} (h : stop ≤ x.parts.length) :
    x.ofRange start stop = if (x.parts.take stop).drop start = [] then none
      else some (x.withText (joinParts ((x.parts.take stop).drop start))) := by
  have hiff : start < stop ↔ ¬ (x.parts.take stop).drop start = [] := by
    rw [List.drop_eq_nil_iff, List.length_take, Nat.min_eq_left h, Nat.not_le]
  unfold ofRange
  by_cases hlt : start < stop
  · rw [if_pos hlt, if_neg (hiff.1 hlt)]
  · rw [if_neg hlt, if_pos (Decidable.not_not.1 fun hne => hlt (hiff.2 hne))]

theorem stopIndex_le (count : Nat) (start : Int) (length : Option Int) :
    stopIndex count start length ≤ count := by
  cases length with
  | none => exact Nat.le_refl count
  | some l => exact Nat.min_le_right _ _

/-- The name that joins a run of parts, unless it is empty. -/
def ofRun (x : Name) (run : List String) : Option Name :=
  if run = [] then none else some (x.withText (joinParts run))

theorem withoutFirst_eq (x : Name) : x.withoutFirst = x.ofRun x.parts.tail := by
  have h := congrArg (Option.map x.withText) x.textAfterFirst_eq
  rw [Option.map_map] at h
  unfold withoutFirst ofRun
  refine h.trans ?_
  split <;> rfl

/-- The path that drops the first part agrees with the general one, messages included. -/
theorem slice_eq_generalSlice (x : Name) (offset : Int) (length : Option Int) :
    x.slice offset length = x.generalSlice offset length := by
  unfold slice
  split
  · next h =>
    obtain ⟨rfl, rfl⟩ := h
    have hin : ¬ OffsetOutside x.parts.length 1 := by
      have := x.one_le_length_parts
      unfold OffsetOutside
      omega
    rw [generalSlice, sliceRange_of_inside hin (by simp), pure_bind]
    have hrange : x.ofRange (startIndex x.parts.length 1).toNat x.parts.length =
        x.ofRun x.parts.tail := by
      rw [ofRange_eq (Nat.le_refl _), List.take_length]
      simp [startIndex, ofRun]
    exact congrArg pure (x.withoutFirst_eq.trans hrange.symm)
  · rfl

/-! ## Results -/

theorem slice_of_offset {x : Name} {offset : Int} (length : Option Int)
    (h : OffsetOutside x.parts.length offset) :
    x.slice offset length = x.refuseSlice .offset offset := by
  rw [slice_eq_generalSlice, generalSlice, sliceRange_of_offset length h]
  rfl

theorem slice_of_length {x : Name} {offset length : Int}
    (h : ¬ OffsetOutside x.parts.length offset)
    (hl : LengthOutside x.parts.length (startIndex x.parts.length offset) length) :
    x.slice offset (some length) = x.refuseSlice .length length := by
  rw [slice_eq_generalSlice, generalSlice, sliceRange_of_length h hl]
  rfl

theorem result_slice_of_offset {x : Name} {offset : Int} (length : Option Int)
    (h : OffsetOutside x.parts.length offset) :
    (x.slice offset length).result = .error (.outOfBounds .offset offset) := by
  rw [slice_of_offset length h]
  rfl

theorem result_slice_of_length {x : Name} {offset length : Int}
    (h : ¬ OffsetOutside x.parts.length offset)
    (hl : LengthOutside x.parts.length (startIndex x.parts.length offset) length) :
    (x.slice offset (some length)).result = .error (.outOfBounds .length length) := by
  rw [slice_of_length h hl]
  rfl

/-- Arguments in bounds give the name of their range. -/
theorem slice_eq_ofRange {x : Name} {offset : Int} {length : Option Int}
    (h : ¬ OffsetOutside x.parts.length offset)
    (hl : ∀ l ∈ length, ¬ LengthOutside x.parts.length (startIndex x.parts.length offset) l) :
    x.slice offset length = pure (x.ofRange (startIndex x.parts.length offset).toNat
      (stopIndex x.parts.length (startIndex x.parts.length offset) length)) := by
  rw [slice_eq_generalSlice, generalSlice, sliceRange_of_inside h hl, pure_bind]

theorem slice_of_inside {x : Name} {offset : Int} {length : Option Int}
    (h : ¬ OffsetOutside x.parts.length offset)
    (hl : ∀ l ∈ length, ¬ LengthOutside x.parts.length (startIndex x.parts.length offset) l) :
    x.slice offset length = pure (x.ofRun (arraySlice x.parts offset length)) := by
  rw [slice_eq_ofRange h hl, ofRange_eq (stopIndex_le _ _ _), drop_take_eq_arraySlice h hl]
  rfl

/-- The name that joins some of the parts of a name has these parts, and the kind and attributes of
the name they are from. -/
theorem ofRun_eq_some {x : Name} {run : List String} (hne : run ≠ []) (h : run ⊆ x.parts) :
    ∃ r, x.ofRun run = some r ∧ r.parts = run ∧ r.text = joinParts run ∧ r.kind = x.kind ∧
      r.attributes = x.attributes :=
  ⟨x.withText (joinParts run), if_neg hne, splitText_joinParts_of_subset hne h, rfl, rfl, rfl⟩

theorem ofRun_eq_none_iff {x : Name} {run : List String} : x.ofRun run = none ↔ run = [] := by
  unfold ofRun
  split
  · next h => exact ⟨fun _ => h, fun _ => rfl⟩
  · next h => exact ⟨fun he => (nomatch he), fun he => absurd he h⟩

/-- What a slice answers, for every text and all arguments. An offset that points outside the `n`
parts is refused, whatever the length; a length that points outside them is refused next; both
refusals carry the argument as it was passed. Otherwise the answer is the run of parts that slicing
their list keeps: no name if it is empty, and else the name of exactly these parts. -/
theorem slice_result (x : Name) (offset : Int) (length : Option Int) :
    let n : Int := x.parts.length
    let o : Int := if offset < 0 then offset + n else offset
    let outcome := (x.slice offset length).result
    let run := arraySlice x.parts offset length
    1 ≤ n ∧
    (outcome = .error (.outOfBounds .offset offset) ↔ offset < -n ∨ n < offset) ∧
    (¬ (offset < -n ∨ n < offset) →
      (∀ l, outcome = .error (.outOfBounds .length l) ↔
        length = some l ∧ (n < l ∨ l < -(n - o))) ∧
      ((∀ l ∈ length, ¬ (n < l ∨ l < -(n - o))) →
        (outcome = .ok none ↔ run = []) ∧
        (run ≠ [] → ∃ r, outcome = .ok (some r) ∧ r.parts = run ∧ r.text = joinParts run ∧
          r.kind = x.kind ∧ r.attributes = x.attributes))) := by
  intro n o outcome run
  have hn : 1 ≤ n := by
    have := x.one_le_length_parts
    omega
  refine ⟨hn, ?_⟩
  by_cases hoff : OffsetOutside x.parts.length offset
  · have hout : outcome = .error (.outOfBounds .offset offset) := result_slice_of_offset length hoff
    exact ⟨⟨fun _ => hoff, fun _ => hout⟩, fun hin => absurd hoff hin⟩
  by_cases hlen : ∃ l ∈ length, LengthOutside x.parts.length (startIndex x.parts.length offset) l
  · obtain ⟨l, hl, hlen⟩ := hlen
    cases hl
    have hout : outcome = .error (.outOfBounds .length l) := result_slice_of_length hoff hlen
    refine ⟨⟨fun h => ?_, fun h => absurd h hoff⟩, fun _ => ⟨fun l' => ⟨fun h => ?_, ?_⟩, ?_⟩⟩
    · rw [hout] at h
      cases h
    · rw [hout] at h
      cases h
      exact ⟨rfl, hlen⟩
    · rintro ⟨hl', -⟩
      cases hl'
      exact hout
    · intro hin
      exact absurd hlen (hin l rfl)
  · have hin : ∀ l ∈ length, ¬ LengthOutside x.parts.length (startIndex x.parts.length offset) l :=
      fun l hl hlo => hlen ⟨l, hl, hlo⟩
    have hout : outcome = .ok (x.ofRun run) := by
      have hslice := congrArg Attempt.result (slice_of_inside hoff hin)
      rwa [Attempt.result_pure] at hslice
    refine ⟨⟨fun h => ?_, fun h => absurd h hoff⟩, fun _ => ⟨fun l => ⟨fun h => ?_, ?_⟩, ?_⟩⟩
    · rw [hout] at h
      cases h
    · rw [hout] at h
      cases h
    · rintro ⟨rfl, hlo⟩
      exact absurd hlo (hin l rfl)
    · intro _
      rw [hout]
      refine ⟨⟨fun h => ofRun_eq_none_iff.1 (Except.ok.inj h),
        fun h => congrArg Except.ok (ofRun_eq_none_iff.2 h)⟩, fun hne => ?_⟩
      obtain ⟨r, hr, hrest⟩ := ofRun_eq_some hne (arraySlice_subset x.parts offset length)
      exact ⟨r, congrArg Except.ok hr, hrest⟩

end Name

end PhpTree
