import PhpTree.Proofs.Name.Joining
import PhpTree.Proofs.Name.Ranges
import PhpTree.Proofs.Text.Lowercase

/-!
# Lowercase part by part

A map on texts acts part by part if the parts of what it makes are what it makes of the parts. It
then goes through joining and slicing, as these only put parts together again.

The lowercase map acts part by part: a separator ends words, so a sigma is not told by what stands
in another part, and no character but a separator has a separator in its lowercase form.
-/

namespace PhpTree.Name

/-! ## Maps that act part by part -/

/-- The parts of a mapped text are the mapped parts, in the same order and number. -/
def PartByPart (f : String → String) : Prop :=
  ∀ s, splitText (f s) = (splitText s).map f

/-- The name of a mapped text, with a kind and attributes of its own. -/
def mapText (f : String → String) (kind : NameKind) (attributes : Attributes) (x : Name) : Name :=
  { text := f x.text, kind := kind, attributes := attributes }

theorem map_joinParts {f : String → String}
    (hjoin : ∀ s t, f (joinTexts s t) = joinTexts (f s) (f t)) {parts : List String}
    (hne : parts ≠ []) : f (joinParts parts) = joinParts (parts.map f) := by
  induction parts with
  | nil => exact absurd rfl hne
  | cons s parts ih =>
    by_cases hparts : parts = []
    · rw [hparts, List.map_singleton, joinParts_singleton, joinParts_singleton]
    · have hmap : parts.map f ≠ [] := mt List.map_eq_nil_iff.1 hparts
      rw [List.map_cons, joinParts_cons_of_ne_nil s hparts, joinParts_cons_of_ne_nil _ hmap, hjoin,
        ih hparts]

namespace PartByPart

variable {f : String → String}

/-- It is enough that joined texts are mapped each on their own, and that no separator comes up in a
text that has none. -/
theorem of_joinTexts (hjoin : ∀ s t, f (joinTexts s t) = joinTexts (f s) (f t))
    (hsep : ∀ s, separator ∉ s.toList → separator ∉ (f s).toList) : PartByPart f := by
  intro s
  have hne := splitText_ne_nil s
  have hmapped : ∀ part ∈ (splitText s).map f, separator ∉ part.toList := by
    intro part hpart
    obtain ⟨p, hp, rfl⟩ := List.mem_map.1 hpart
    exact hsep p (separator_not_mem_of_mem_splitText hp)
  rw [← splitText_joinParts (mt List.map_eq_nil_iff.1 hne) hmapped, ← map_joinParts hjoin hne,
    joinParts_splitText]

theorem joinTexts (h : PartByPart f) (s t : String) :
    f (joinTexts s t) = Name.joinTexts (f s) (f t) := by
  rw [← joinParts_splitText (f (Name.joinTexts s t)), h, splitText_joinTexts, List.map_append, ← h,
    ← h, ← splitText_joinTexts, joinParts_splitText]

variable {kind : NameKind} {attributes : Attributes}

theorem parts_mapText (h : PartByPart f) (x : Name) :
    (x.mapText f kind attributes).parts = x.parts.map f :=
  h x.text

theorem length_parts_mapText (h : PartByPart f) (x : Name) :
    (x.mapText f kind attributes).parts.length = x.parts.length := by
  rw [h.parts_mapText, List.length_map]

theorem ofRange_mapText (h : PartByPart f) {x : Name} {start stop : Nat}
    (hstop : stop ≤ x.parts.length) : (x.mapText f kind attributes).ofRange start stop =
      (x.ofRange start stop).map (mapText f kind attributes) := by
  unfold ofRange
  split
  · next hlt =>
    have hne : (x.parts.take stop).drop start ≠ [] := by
      rw [← List.length_pos_iff, List.length_drop, List.length_take]
      omega
    rw [h.parts_mapText, ← List.map_take, ← List.map_drop, ← map_joinParts h.joinTexts hne]
    rfl
  · rfl

/-- The slice of a mapped text is the mapped slice, and it is refused for the same argument. -/
theorem result_slice_mapText (h : PartByPart f) (x : Name) (offset : Int) (length : Option Int) :
    ((x.mapText f kind attributes).slice offset length).result =
      (x.slice offset length).result.map (Option.map (mapText f kind attributes)) := by
  have hcount := @length_parts_mapText f kind attributes h x
  obtain ⟨hoffset, hslice⟩ | ⟨l, rfl, hoffset, hl, hslice⟩ | ⟨start, stop, hrange, hslice⟩ :=
    x.slice_outcome offset length
  · rw [hslice]
    rw [← hcount] at hoffset
    exact result_slice_of_offset length hoffset
  · rw [hslice]
    rw [← hcount] at hoffset hl
    exact result_slice_of_length hoffset hl
  · have hstop := hrange.stop_le
    rw [hslice]
    rw [← hcount] at hrange
    rw [slice_of_resolves hrange, h.ofRange_mapText hstop]
    rfl

end PartByPart

/-! ## Lowercase -/

theorem endsWords_separator : Text.EndsWords separator where
  not_cased := by decide +kernel
  not_caseIgnorable := by decide +kernel
  lowercaseChar_eq := by decide

theorem lowercase_joinTexts (s t : String) :
    Text.lowercase (joinTexts s t) = joinTexts (Text.lowercase s) (Text.lowercase t) :=
  endsWords_separator.lowercase_append s t

theorem partByPart_lowercase : PartByPart Text.lowercase :=
  PartByPart.of_joinTexts lowercase_joinTexts fun _ => mt (Text.mem_of_mem_lowercase (by decide))

/-- The lowercase form of a name is that of its parts. It has as many parts, in the same order,
and each is the lowercase form of one part on its own. The lowercase form of a joined name is that
of the operand in front, a separator, and that of the operand behind. A slice of the lowercase
form, for whatever arguments, is refused with the same fault, or it is no name, just as that of
the name, and otherwise it is the lowercase form of the slice. -/
theorem lowercase_part_by_part (kind : NameKind) (attributes : Attributes) :
    (∀ x : Name,
      let y : Name := { text := x.lowercaseText, kind := kind, attributes := attributes }
      y.parts = x.parts.map Text.lowercase) ∧
    (∀ (a b : NameInput) (s t : String), a.prepare.result = .ok s → b.prepare.result = .ok t →
      ∃ r, (kind.concat (some a) (some b) attributes).result = .ok (some r) ∧
        r.lowercaseText =
          Text.lowercase s ++ String.singleton separator ++ Text.lowercase t) ∧
    (∀ (x : Name) (offset : Int) (length : Option Int),
      let y : Name := { text := x.lowercaseText, kind := kind, attributes := attributes }
      (y.slice offset length).result = (x.slice offset length).result.map (Option.map fun r =>
        { text := r.lowercaseText, kind := kind, attributes := attributes })) := by
  refine ⟨fun x => partByPart_lowercase x.text, fun a b s t ha hb => ?_, ?_⟩
  · exact ⟨_, kind.result_concat_of_ok attributes ha hb, lowercase_joinTexts s t⟩
  · exact partByPart_lowercase.result_slice_mapText

/-- A sigma takes its final form at the end of a part, though there are letters in the next one, and
not at the start of a part, though there are letters in the one before. -/
theorem lowercase_sigma_part_by_part :
    let a : NameInput := .text "AΣ"
    let b : NameInput := .parts ["ΣA", "Σ"]
    a.prepare.result = .ok "AΣ" ∧ b.prepare.result = .ok "ΣA\\Σ" ∧
      ∃ r, (NameKind.relative.concat (some a) (some b) ∅).result = .ok (some r) ∧
        r.lowercaseText = "aς\\σa\\σ" := by
  intro a b
  obtain ⟨-, hjoined, -⟩ := lowercase_part_by_part .relative ∅
  obtain ⟨r, hr, hlower⟩ := hjoined a b "AΣ" "ΣA\\Σ" rfl rfl
  exact ⟨rfl, rfl, r, hr, hlower.trans (by decide +kernel)⟩

end PhpTree.Name
