import PhpTree.Proofs.Name.Ranges

/-!
# Slices of slices

A slice has the parts of its range, and no others, so its own slices are ranges within that range:
each of them is one slice of the name it all comes from. However often a name is sliced, what is
left is a run of its parts or no name at all.
-/

namespace PhpTree.Name

/-! ## Ranges within ranges -/

theorem ofRange_eq_some_iff {x r : Name} {start stop : Nat} : x.ofRange start stop = some r ↔
    start < stop ∧ x.withText (joinParts ((x.parts.take stop).drop start)) = r := by
  unfold ofRange
  split
  · next hlt => simp [hlt]
  · next hlt => simp [hlt]

theorem ofRange_whole (x : Name) : x.ofRange 0 x.parts.length = some x := by
  have htext : joinParts x.parts = x.text := joinParts_splitText x.text
  refine ofRange_eq_some_iff.2 ⟨x.one_le_length_parts, ?_⟩
  rw [List.take_length, List.drop_zero, htext]
  cases x
  rfl

theorem length_parts_of_ofRange_eq_some {x r : Name} {start stop : Nat}
    (hstop : stop ≤ x.parts.length) (h : x.ofRange start stop = some r) :
    r.parts.length = stop - start := by
  rw [parts_of_ofRange_eq_some hstop h, List.length_drop, List.length_take, Nat.min_eq_left hstop]

/-- A range within a range is a range. -/
theorem ofRange_of_ofRange_eq_some {x r : Name} {start stop start' stop' : Nat}
    (hstop : stop ≤ x.parts.length) (h : x.ofRange start stop = some r)
    (hstop' : stop' ≤ stop - start) :
    r.ofRange start' stop' = x.ofRange (start + start') (start + stop') := by
  obtain ⟨hlt, hr⟩ := ofRange_eq_some_iff.1 h
  have hmin : min (start + stop') stop = start + stop' := by omega
  have hparts : (r.parts.take stop').drop start' =
      (x.parts.take (start + stop')).drop (start + start') := by
    rw [parts_of_ofRange_eq_some hstop h, List.take_drop, List.take_take, hmin, List.drop_drop]
  have htext (text : String) : r.withText text = x.withText text := by
    rw [← hr]
    rfl
  simp only [ofRange, Nat.add_lt_add_iff_left, hparts, htext]

/-- Arguments that spell a range out. -/
theorem resolves_range {count start stop : Nat} (hle : start ≤ stop) (hstop : stop ≤ count) :
    Resolves count start (some ((stop : Int) - start)) start stop := by
  have hstart : ¬ (start : Int) < 0 := by omega
  have hspan : ¬ (stop : Int) - start < 0 := by omega
  apply resolves_some (stop - start) (Nat.le_trans hle hstop) (by omega)
  · rw [startIndex, if_neg hstart]
  · rw [spanLength, if_neg hspan, Int.natCast_sub hle]
  · omega

theorem Resolves.start_le_stop {count start stop : Nat} {offset : Int} {length : Option Int}
    (h : Resolves count offset length start stop) : start ≤ stop := by
  have hstart := h.start_le
  cases length with
  | none =>
    rw [h.stop_of_none rfl]
    exact hstart
  | some l =>
    obtain ⟨span, -, -, hstop⟩ := h.stop_of_some l rfl
    omega

/-- A slice of a range is a slice of the name, for the range moved. -/
theorem slice_of_ofRange_eq_some {x r : Name} {start stop : Nat} (hstop : stop ≤ x.parts.length)
    (h : x.ofRange start stop = some r) {offset : Int} {length : Option Int} {start' stop' : Nat}
    (hrange : Resolves (stop - start) offset length start' stop') :
    r.slice offset length = x.slice (start + start' : Nat) (some ((stop' : Int) - start')) := by
  have hlt := (ofRange_eq_some_iff.1 h).1
  have hstop' := hrange.stop_le
  have hle' := hrange.start_le_stop
  have hmoved := @resolves_range x.parts.length (start + start') (start + stop')
    (by omega) (by omega)
  have hspan : ((start + stop' : Nat) : Int) - (start + start' : Nat) = stop' - start' := by omega
  rw [hspan] at hmoved
  rw [← length_parts_of_ofRange_eq_some hstop h] at hrange
  rw [slice_of_resolves hrange, slice_of_resolves hmoved, ofRange_of_ofRange_eq_some hstop h hstop']

/-! ## Empty slices and refusals -/

theorem result_slice_eq_ok_none_iff {x : Name} {offset : Int} {length : Option Int}
    {start stop : Nat} (h : Resolves x.parts.length offset length start stop) :
    (x.slice offset length).result = .ok none ↔ start = stop := by
  have hle := h.start_le_stop
  rw [slice_of_resolves h, Attempt.result_pure, Except.ok.injEq, ofRange]
  split
  · next hlt => exact ⟨fun hsome => absurd hsome (Option.some_ne_none _), fun heq => by omega⟩
  · next hlt => exact ⟨fun _ => by omega, fun _ => rfl⟩

/-- A slice is refused just if an argument points outside the parts: with the offset as it was
passed, or else with the length. -/
theorem result_slice_eq_error_iff {x : Name} {offset : Int} {length : Option Int} {fault : Fault} :
    (x.slice offset length).result = .error fault ↔
      (OffsetOutside x.parts.length offset ∧ fault = .outOfBounds .offset offset) ∨
      (¬ OffsetOutside x.parts.length offset ∧ ∃ l, length = some l ∧
        LengthOutside x.parts.length (startIndex x.parts.length offset) l ∧
        fault = .outOfBounds .length l) := by
  constructor
  · intro h
    obtain ⟨hoffset, hslice⟩ | ⟨l, rfl, hoffset, hl, hslice⟩ | ⟨start, stop, -, hslice⟩ :=
      x.slice_outcome offset length
    · rw [hslice] at h
      cases h
      exact Or.inl ⟨hoffset, rfl⟩
    · rw [hslice] at h
      cases h
      exact Or.inr ⟨hoffset, l, rfl, hl, rfl⟩
    · rw [hslice] at h
      cases h
  · rintro (⟨hoffset, rfl⟩ | ⟨hoffset, l, rfl, hl, rfl⟩)
    · exact result_slice_of_offset length hoffset
    · exact result_slice_of_length hoffset hl

theorem exists_result_slice_eq_ok_iff {x : Name} {offset : Int} {length : Option Int} :
    (∃ q, (x.slice offset length).result = .ok q) ↔
      ∃ start stop, Resolves x.parts.length offset length start stop := by
  constructor
  · rintro ⟨q, hq⟩
    obtain ⟨start, stop, hrange, -⟩ := resolves_of_result_eq_ok hq
    exact ⟨start, stop, hrange⟩
  · rintro ⟨start, stop, hrange⟩
    exact ⟨_, congrArg Attempt.result (slice_of_resolves hrange)⟩

/-! ## Chains of slices -/

/-- Slices a name, then the slice, and so on. Where no name is left there is nothing to slice. -/
def sliceAgain (x : Name) : List (Int × Option Int) → Attempt (Option Name)
  | [] => return some x
  | (offset, length) :: steps => do
    match ← x.slice offset length with
    | none => return none
    | some r => r.sliceAgain steps

theorem result_sliceAgain_cons {x r : Name} {offset : Int} {length : Option Int}
    (h : (x.slice offset length).result = .ok (some r)) (steps : List (Int × Option Int)) :
    (x.sliceAgain ((offset, length) :: steps)).result = (r.sliceAgain steps).result := by
  rw [sliceAgain, Attempt.result_bind, h]
  rfl

/-- A chain of slices that leaves a name leaves a range of the parts it began with. -/
theorem ofRange_of_result_sliceAgain {x r : Name} {steps : List (Int × Option Int)}
    (h : (x.sliceAgain steps).result = .ok (some r)) :
    ∃ start stop, stop ≤ x.parts.length ∧ x.ofRange start stop = some r := by
  induction steps generalizing x with
  | nil =>
    cases h
    exact ⟨0, r.parts.length, Nat.le_refl _, r.ofRange_whole⟩
  | cons step steps ih =>
    obtain ⟨q, hq, hrest⟩ := Attempt.exists_of_result_bind_eq_ok h
    obtain ⟨start, stop, hrange, rfl⟩ := resolves_of_result_eq_ok hq
    cases hslice : x.ofRange start stop with
    | none =>
      rw [hslice] at hrest
      cases hrest
    | some y =>
      rw [hslice] at hrest
      obtain ⟨start', stop', hstop', hr⟩ := ih hrest
      rw [length_parts_of_ofRange_eq_some hrange.stop_le hslice] at hstop'
      rw [ofRange_of_ofRange_eq_some hrange.stop_le hslice hstop'] at hr
      have hstop := hrange.stop_le
      have hle := hrange.start_le_stop
      exact ⟨start + start', start + stop', by omega, hr⟩

/-- Slicing a slice is one slice of the name. If a slice is the name of the range from `start` up
to `stop`, its own slices are bounded by its `stop - start` parts: they are refused just if an
argument points outside these, with the argument as it was passed, and otherwise they have a range
in them, and are what the name gives for that range, moved by `start`. So whatever is sliced again
and again, a name that is left has a run of the parts in a row, and the kind and attributes of the
name. -/
theorem slice_of_slice (x : Name) :
    (∀ (offset : Int) (length : Option Int) (start stop : Nat) (r : Name),
      Resolves x.parts.length offset length start stop →
      (x.slice offset length).result = .ok (some r) →
        r.parts = (x.parts.take stop).drop start ∧ r.parts.length = stop - start ∧
        ∀ (offset' : Int) (length' : Option Int),
          (∀ start' stop', Resolves (stop - start) offset' length' start' stop' →
            r.slice offset' length' =
              x.slice (start + start' : Nat) (some ((stop' : Int) - start')) ∧
            ((r.slice offset' length').result = .ok none ↔ start' = stop')) ∧
          ((∃ q, (r.slice offset' length').result = .ok q) ↔
            ∃ start' stop', Resolves (stop - start) offset' length' start' stop') ∧
          (∀ fault, (r.slice offset' length').result = .error fault ↔
            (OffsetOutside (stop - start) offset' ∧ fault = .outOfBounds .offset offset') ∨
            (¬ OffsetOutside (stop - start) offset' ∧ ∃ l, length' = some l ∧
              LengthOutside (stop - start) (startIndex (stop - start) offset') l ∧
              fault = .outOfBounds .length l))) ∧
    (∀ (steps : List (Int × Option Int)) (r : Name),
      (x.sliceAgain steps).result = .ok (some r) →
        ∃ start stop, start < stop ∧ stop ≤ x.parts.length ∧
          r.parts = (x.parts.take stop).drop start ∧ r.kind = x.kind ∧
          r.attributes = x.attributes) := by
  constructor
  · intro offset length start stop r hrange hr
    rw [slice_of_resolves hrange, Attempt.result_pure] at hr
    have hr := Except.ok.inj hr
    have hcount := length_parts_of_ofRange_eq_some hrange.stop_le hr
    refine ⟨parts_of_ofRange_eq_some hrange.stop_le hr, hcount, fun offset' length' => ⟨?_, ?_, ?_⟩⟩
    · intro start' stop' hrange'
      have hfused := slice_of_ofRange_eq_some hrange.stop_le hr hrange'
      rw [← hcount] at hrange'
      exact ⟨hfused, result_slice_eq_ok_none_iff hrange'⟩
    · rw [← hcount]
      exact exists_result_slice_eq_ok_iff
    · intro fault
      rw [← hcount]
      exact result_slice_eq_error_iff
  · intro steps r h
    obtain ⟨start, stop, hstop, hr⟩ := ofRange_of_result_sliceAgain h
    obtain ⟨hlt, hname⟩ := ofRange_eq_some_iff.1 hr
    refine ⟨start, stop, hlt, hstop, parts_of_ofRange_eq_some hstop hr, ?_, ?_⟩
    · rw [← hname]
      rfl
    · rw [← hname]
      rfl

/-- In a text with an empty part: of the parts behind the first one, the last two by a length that
is cut short, and the empty one in a chain. -/
theorem slice_of_slice_last_two :
    let x : Name := { text := "A\\B\\\\C", kind := .relative, attributes := ∅ }
    let r := x.withText "B\\\\C"
    let steps := [(1, none), (-2, some 1)]
    (Resolves x.parts.length 1 none 1 4 ∧ (x.slice 1 none).result = .ok (some r) ∧
      Resolves (4 - 1) (-2) (some 3) 1 3 ∧
      r.slice (-2) (some 3) = x.slice (1 + 1 : Nat) (some ((3 : Nat) - (1 : Nat)))) ∧
    (x.sliceAgain steps).result = .ok (some (r.withText "")) ∧
      ∃ start stop, start < stop ∧ stop ≤ x.parts.length ∧
        (r.withText "").parts = (x.parts.take stop).drop start := by
  intro x r steps
  have hcount : x.parts.length = 4 := by decide
  have hcount' : r.parts.length = 4 - 1 := by decide
  have hrange : Resolves x.parts.length 1 none 1 4 := by
    rw [hcount]
    exact resolves_none (by decide) rfl
  have hlong : Resolves (4 - 1) (-2) (some 3) 1 3 :=
    resolves_some 3 (by decide) (by decide) rfl rfl rfl
  have hshort : Resolves r.parts.length (-2) (some 1) 1 2 := by
    rw [hcount']
    exact resolves_some 1 (by decide) (by decide) rfl rfl rfl
  have hr : (x.slice 1 none).result = .ok (some r) :=
    result_slice_of_text hrange (by decide) (by decide)
  have hempty : (r.slice (-2) (some 1)).result = .ok (some (r.withText "")) :=
    result_slice_of_text hshort (by decide) (by decide)
  have hsteps : (x.sliceAgain steps).result = .ok (some (r.withText "")) := by
    rw [result_sliceAgain_cons hr, result_sliceAgain_cons hempty]
    rfl
  obtain ⟨hslices, hchains⟩ := x.slice_of_slice
  obtain ⟨-, -, hinner⟩ := hslices 1 none 1 4 r hrange hr
  obtain ⟨start, stop, hlt, hstop, hparts, -⟩ := hchains steps _ hsteps
  exact ⟨⟨hrange, hr, hlong, ((hinner (-2) (some 3)).1 1 3 hlong).1⟩, hsteps, start, stop, hlt,
    hstop, hparts⟩

end PhpTree.Name
