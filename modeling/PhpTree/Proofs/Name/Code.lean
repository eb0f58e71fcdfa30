import PhpTree.Proofs.Name.Ends
import PhpTree.Proofs.Name.WellFormed

/-!
# Names in source code

What source code puts in front of a name reads as one more part: an empty one for a fully qualified
name, and the word for the current namespace for a relative one. So the code of a name splits into
this part, if there is one, and the parts of the name. It tells well-formed names apart by kind and
text, but for one pattern: a plain name that begins with the word for the current namespace is
written like the relative name of the parts behind it.
-/

namespace PhpTree

/-- The parts that the marker of a kind adds in front. -/
def NameKind.leadingParts : NameKind → List String
  | .plain => []
  | .fullyQualified => [""]
  | .relative => ["namespace"]

namespace Name

/-! ## The parts of code -/

theorem splitText_injective : Function.Injective splitText := by
  intro s t h
  rw [← joinParts_splitText s, h, joinParts_splitText]

theorem splitText_code (x : Name) : splitText x.code = x.kind.leadingParts ++ x.parts := by
  rw [code]
  cases x.kind with
  | plain => rw [NameKind.marker, String.empty_append, NameKind.leadingParts, List.nil_append, parts]
  | fullyQualified =>
    have hcode : NameKind.fullyQualified.marker ++ x.text = joinTexts "" x.text := by
      rw [joinTexts, String.empty_append, NameKind.marker]
    have hempty : splitText "" = [""] := splitText_eq_singleton_iff.2 (by decide)
    rw [hcode, splitText_joinTexts, hempty, NameKind.leadingParts, parts]
  | relative =>
    have hword : splitText currentNamespace = ["namespace"] := splitText_eq_singleton_iff.2 (by decide)
    rw [NameKind.marker, ← joinTexts, splitText_joinTexts, hword, NameKind.leadingParts, parts]

theorem code_eq_iff_parts {x y : Name} :
    x.code = y.code ↔ x.kind.leadingParts ++ x.parts = y.kind.leadingParts ++ y.parts := by
  rw [← splitText_code, ← splitText_code, splitText_injective.eq_iff]

/-! ## Names with the same code -/

/-- The plain name `x` is written like the relative name `y`: it begins with the word for the current
namespace, and `y` has the text behind it. -/
structure SpellsOut (x y : Name) : Prop where
  plain : x.kind = .plain
  relative : y.kind = .relative
  first : x.first = "namespace"
  behind : ∃ r, (x.slice 1 none).result = .ok (some r) ∧ r.text = y.text

theorem slice_behind_of_parts_eq_cons {x : Name} {part text : String}
    (h : x.parts = part :: splitText text) :
    (x.slice 1 none).result = .ok (some (x.withText text)) := by
  rw [slice_behind_first, Attempt.result_pure, h, List.tail_cons, ofRun_splitText]

theorem parts_eq_cons_of_slice_behind {x r : Name}
    (h : (x.slice 1 none).result = .ok (some r)) : x.parts = x.first :: r.parts := by
  obtain ⟨behind, hparts⟩ := x.exists_parts_eq_cons
  have hsub : behind ⊆ x.parts := by
    rw [hparts]
    exact List.subset_cons_self _ _
  rw [slice_behind_first, Attempt.result_pure, hparts, List.tail_cons] at h
  have hr := Except.ok.inj h
  have hne : behind ≠ [] := by
    rintro rfl
    cases hr
  obtain ⟨r', hr', hbehind, -⟩ := ofRun_eq_some hne hsub
  rw [hr] at hr'
  rw [hparts, Option.some.inj hr', hbehind]

theorem spellsOut_iff {x y : Name} (hx : x.kind = .plain) (hy : y.kind = .relative) :
    x.SpellsOut y ↔ x.parts = "namespace" :: y.parts := by
  constructor
  · rintro ⟨-, -, hfirst, r, hr, htext⟩
    have hparts : r.parts = y.parts := congrArg splitText htext
    rw [parts_eq_cons_of_slice_behind hr, hfirst, hparts]
  · intro h
    refine ⟨hx, hy, ?_, x.withText y.text, slice_behind_of_parts_eq_cons h, rfl⟩
    have hhead := x.head?_parts
    rw [h, List.head?_cons] at hhead
    exact (Option.some.inj hhead).symm

theorem code_eq_of_spellsOut {x y : Name} (h : x.SpellsOut y) : x.code = y.code := by
  rw [code_eq_iff_parts, h.plain, h.relative]
  exact (spellsOut_iff h.plain h.relative).1 h

theorem text_eq_of_code_eq {x y : Name} (hkind : x.kind = y.kind) (h : x.code = y.code) :
    x.text = y.text := by
  rw [code_eq_iff_parts, hkind] at h
  exact splitText_injective (List.append_cancel_left h)

theorem code_ne_of_fullyQualified {x y : Name} (hx : WellFormedText x.text)
    (hkind : x.kind ≠ .fullyQualified) (hy : y.kind = .fullyQualified) : x.code ≠ y.code := by
  intro h
  rw [code_eq_iff_parts, hy] at h
  cases hx' : x.kind with
  | plain =>
    -- The empty part in front would have to be a part of the well-formed name.
    rw [hx'] at h
    have hparts : x.parts = "" :: y.parts := h
    refine hx "" ?_ rfl
    rw [← parts, hparts]
    exact List.mem_cons_self
  | fullyQualified => exact hkind hx'
  | relative =>
    rw [hx'] at h
    exact absurd (List.cons.inj h).1 (by decide)

/-- Well-formed names with the same code agree in kind and text, or one spells the other out. -/
theorem eq_or_spellsOut_of_code_eq {x y : Name} (hx : WellFormedText x.text)
    (hy : WellFormedText y.text) (h : x.code = y.code) :
    (x.kind = y.kind ∧ x.text = y.text) ∨ x.SpellsOut y ∨ y.SpellsOut x := by
  by_cases hkind : x.kind = y.kind
  · exact Or.inl ⟨hkind, text_eq_of_code_eq hkind h⟩
  right
  have hparts := code_eq_iff_parts.1 h
  cases hxk : x.kind with
  | plain =>
    cases hyk : y.kind with
    | plain => exact absurd (hxk.trans hyk.symm) hkind
    | fullyQualified =>
      exact absurd h (code_ne_of_fullyQualified hx (by rw [hxk]; decide) hyk)
    | relative =>
      rw [hxk, hyk] at hparts
      exact Or.inl ((spellsOut_iff hxk hyk).2 hparts)
  | fullyQualified =>
    have hyk : y.kind ≠ .fullyQualified := fun hyk => hkind (hxk.trans hyk.symm)
    exact absurd h.symm (code_ne_of_fullyQualified hy hyk hxk)
  | relative =>
    cases hyk : y.kind with
    | plain =>
      rw [hxk, hyk] at hparts
      exact Or.inr ((spellsOut_iff hyk hxk).2 hparts.symm)
    | fullyQualified =>
      exact absurd h (code_ne_of_fullyQualified hx (by rw [hxk]; decide) hyk)
    | relative => exact absurd (hxk.trans hyk.symm) hkind

/-! ## Code read as a name -/

theorem parts_of_text_eq_code {x r : Name} (h : r.text = x.code) :
    r.parts = x.kind.leadingParts ++ x.parts := by
  rw [parts, h, splitText_code]

/-- The code of a name is unambiguous but for one pattern. Well-formed names with the same code have
one kind and one text, or one of them is plain, begins with the word for the current namespace, and
the other is the relative name of the text behind it; and all such names do have the same code. For
every name that is not plain, well formed or not, the plain name of its code has one part in front of
the parts of the name, and without it the text of the name. And the code of a joined name is that of
the operand in front, a separator, and the text behind. -/
theorem code_unambiguous :
    (∀ x y : Name, WellFormedText x.text → WellFormedText y.text → x.code = y.code →
      (x.kind = y.kind ∧ x.text = y.text) ∨ x.SpellsOut y ∨ y.SpellsOut x) ∧
    (∀ x y : Name, (x.kind = y.kind ∧ x.text = y.text) ∨ x.SpellsOut y ∨ y.SpellsOut x →
      x.code = y.code) ∧
    (∀ (x : Name) (attributes : Attributes), x.kind ≠ .plain →
      ∃ r t, (build .plain (.text x.code) attributes).result = .ok r ∧
        (x.kind = .fullyQualified → r.parts = "" :: x.parts) ∧
        (x.kind = .relative → r.parts = "namespace" :: x.parts) ∧
        (r.slice 1 none).result = .ok (some t) ∧ t.text = x.text) ∧
    (∀ (kind : NameKind) (a b : String) (attributes attributes' : Attributes),
      ∃ c r, (kind.concat (some (.text a)) (some (.text b)) attributes).result = .ok (some c) ∧
        (build kind (.text a) attributes').result = .ok r ∧ c.code = joinTexts r.code b) := by
  refine ⟨fun x y => eq_or_spellsOut_of_code_eq, ?_, ?_, ?_⟩
  · rintro x y (⟨hkind, htext⟩ | h | h)
    · rw [code, code, hkind, htext]
    · exact code_eq_of_spellsOut h
    · exact (code_eq_of_spellsOut h).symm
  · intro x attributes hkind
    let r : Name := { text := x.code, kind := .plain, attributes := attributes }
    have hparts : r.parts = x.kind.leadingParts ++ x.parts := parts_of_text_eq_code rfl
    have hbehind : ∃ part, r.parts = part :: splitText x.text := by
      cases hk : x.kind with
      | plain => exact absurd hk hkind
      | fullyQualified => exact ⟨"", by rw [hparts, hk]; rfl⟩
      | relative => exact ⟨"namespace", by rw [hparts, hk]; rfl⟩
    obtain ⟨part, hpart⟩ := hbehind
    refine ⟨r, r.withText x.text, rfl, fun hk => ?_, fun hk => ?_,
      slice_behind_of_parts_eq_cons hpart, rfl⟩
    · rw [hparts, hk]
      rfl
    · rw [hparts, hk]
      rfl
  · intro kind a b attributes attributes'
    refine ⟨_, _, kind.result_concat_of_ok attributes rfl rfl, rfl, ?_⟩
    simp only [code, joinTexts, String.append_assoc]

/-- The relative name of one part, and the plain name that spells it out; and a fully qualified name
whose text begins with a separator, read from its code. -/
theorem code_of_relative_spelled_out :
    let x : Name := { text := "namespace\\A", kind := .plain, attributes := ∅ }
    let y : Name := { text := "A", kind := .relative, attributes := ∅ }
    let z : Name := { text := "\\A", kind := .fullyQualified, attributes := ∅ }
    (WellFormedText x.text ∧ WellFormedText y.text ∧ x.code = y.code ∧
      ((x.kind = y.kind ∧ x.text = y.text) ∨ x.SpellsOut y ∨ y.SpellsOut x)) ∧
    (x.SpellsOut y ∧ x.code = y.code) ∧
    (z.kind ≠ .plain ∧ ∃ r t, (build .plain (.text z.code) ∅).result = .ok r ∧
      r.parts = ["", "", "A"] ∧ (r.slice 1 none).result = .ok (some t) ∧ t.text = "\\A") := by
  intro x y z
  obtain ⟨htold, hcollide, hread, -⟩ := code_unambiguous
  have hx : WellFormedText x.text := by decide
  have hy : WellFormedText y.text := by decide
  have hspells : x.SpellsOut y := (spellsOut_iff rfl rfl).2 (by decide)
  have hcode : x.code = y.code := hcollide x y (Or.inr (Or.inl hspells))
  have hz : z.kind ≠ .plain := by decide
  obtain ⟨r, t, hr, hparts, -, ht, htext⟩ := hread z ∅ hz
  exact ⟨⟨hx, hy, hcode, htold x y hx hy hcode⟩, ⟨hspells, hcode⟩, hz, r, t, hr,
    (hparts rfl).trans (by decide), ht, htext⟩

end Name

end PhpTree
