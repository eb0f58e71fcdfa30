import PhpTree.Proofs.Name.Joining
import PhpTree.Proofs.Name.Ranges

/-!
# Well-formed names

A text is well formed when no part of it is empty, that is, when there is something in it, no
separator stands at an end, and no two of them stand next to each other. No operation checks this, but
all of them keep it: names that are built, joined and cut are well formed if the texts are that they
come from, however often what was made is used again.
-/

namespace PhpTree

/-! ## Empty pieces -/

/-- An empty piece stands between separators that have nothing between them, or at an end. -/
theorem separators_of_nil_mem_splitOn (cs : List Char) (h : [] ∈ cs.splitOn separator) :
    cs = [] ∨ cs.head? = some separator ∨ cs.getLast? = some separator ∨
      [separator, separator] <:+: cs := by
  have happ := @List.takeWhile_append_dropWhile _ (· != separator) cs
  have hhead := List.head?_dropWhile_not (· != separator) cs
  rw [Name.splitOn_eq_takeWhile_cons, Name.textAfterFirst] at h
  cases hrest : cs.dropWhile (· != separator) with
  | nil =>
    rw [hrest] at h happ
    have hempty : [] = cs.takeWhile (· != separator) := by simpa using h
    rw [← hempty] at happ
    exact Or.inl happ.symm
  | cons c rest =>
    rw [hrest] at h hhead happ
    have hc : c = separator := by simpa using hhead
    subst hc
    generalize cs.takeWhile (· != separator) = piece at h happ
    rcases List.mem_cons.1 h with rfl | h
    · rw [← happ]
      exact Or.inr (Or.inl rfl)
    · -- The piece is one of those behind the first separator, which may be the first of two.
      have hshorter : rest.length < cs.length := by
        rw [← happ, List.length_append, List.length_cons]
        omega
      right
      right
      rw [← happ]
      rcases separators_of_nil_mem_splitOn rest h with rfl | hfirst | hlast | hdouble
      · exact Or.inl List.getLast?_concat
      · obtain ⟨rest, rfl⟩ := List.head?_eq_some_iff.1 hfirst
        exact Or.inr ⟨piece, rest, by simp⟩
      · obtain ⟨front, rfl⟩ := List.getLast?_eq_some_iff.1 hlast
        left
        rw [← List.cons_append, ← List.append_assoc]
        exact List.getLast?_concat
      · exact Or.inr (hdouble.trans ((List.suffix_cons _ _).trans (List.suffix_append _ _)).isInfix)
termination_by cs.length

theorem nil_mem_splitOn_iff {cs : List Char} : [] ∈ cs.splitOn separator ↔
    cs = [] ∨ cs.head? = some separator ∨ cs.getLast? = some separator ∨
      [separator, separator] <:+: cs := by
  constructor
  · exact separators_of_nil_mem_splitOn cs
  · have hnil : [] ∈ ([] : List Char).splitOn separator := List.mem_singleton_self []
    rintro (rfl | hfirst | hlast | ⟨front, rest, rfl⟩)
    · exact hnil
    · obtain ⟨rest, rfl⟩ := List.head?_eq_some_iff.1 hfirst
      rw [← List.nil_append (separator :: rest), List.splitOn_append_cons_self]
      exact List.mem_append_left _ hnil
    · obtain ⟨front, rfl⟩ := List.getLast?_eq_some_iff.1 hlast
      rw [List.splitOn_append_cons_self]
      exact List.mem_append_right _ hnil
    · have hdoubled : front ++ [separator, separator] ++ rest =
          front ++ separator :: ([] ++ separator :: rest) := by simp
      rw [hdoubled, List.splitOn_append_cons_self, List.splitOn_append_cons_self]
      exact List.mem_append_right _ (List.mem_append_left _ hnil)

namespace Name

/-! ## Texts -/

/-- No part of the text is empty. -/
def WellFormedText (s : String) : Prop :=
  ∀ part ∈ splitText s, part ≠ ""

instance (s : String) : Decidable (WellFormedText s) :=
  inferInstanceAs (Decidable (∀ part ∈ splitText s, part ≠ ""))

theorem wellFormedText_iff {s : String} : WellFormedText s ↔
    s ≠ "" ∧ s.toList.head? ≠ some separator ∧ s.toList.getLast? ≠ some separator ∧
      ¬ [separator, separator] <:+: s.toList := by
  have hempty : WellFormedText s ↔ ¬ [] ∈ s.toList.splitOn separator := by
    rw [← map_toList_splitText, List.mem_map]
    constructor
    · rintro h ⟨part, hmem, hpart⟩
      exact h part hmem (String.toList_eq_nil_iff.1 hpart)
    · rintro h part hmem rfl
      exact h ⟨"", hmem, rfl⟩
  rw [hempty, nil_mem_splitOn_iff, String.toList_eq_nil_iff]
  simp only [not_or, ne_eq]

theorem wellFormedText_joinParts_iff {texts : List String} (hne : texts ≠ []) :
    WellFormedText (joinParts texts) ↔ ∀ t ∈ texts, WellFormedText t := by
  unfold WellFormedText
  rw [splitText_joinParts_eq_flatMap hne]
  constructor
  · intro h t ht part hpart
    exact h part (List.mem_flatMap.2 ⟨t, ht, hpart⟩)
  · intro h part hpart
    obtain ⟨t, ht, hpart⟩ := List.mem_flatMap.1 hpart
    exact h t ht part hpart

/-- A part of a well-formed name is a well-formed text with no other part. -/
theorem wellFormedText_of_mem_parts {x : Name} (h : WellFormedText x.text) {part : String}
    (hpart : part ∈ x.parts) : WellFormedText part := by
  have hsplit : splitText part = [part] :=
    splitText_eq_singleton_iff.2 (separator_not_mem_of_mem_splitText hpart)
  intro p hp
  rw [hsplit, List.mem_singleton] at hp
  rw [hp]
  exact h part hpart

theorem wellFormedText_of_slice {x r : Name} {offset : Int} {length : Option Int}
    (hx : WellFormedText x.text) (h : (x.slice offset length).result = .ok (some r)) :
    WellFormedText r.text := by
  obtain ⟨start, stop, hrange, hr⟩ := resolves_of_result_eq_ok h
  have hparts := parts_of_ofRange_eq_some hrange.stop_le hr.symm
  intro part hpart
  have hpart : part ∈ r.parts := hpart
  rw [hparts] at hpart
  exact hx part (List.mem_of_mem_take (List.mem_of_mem_drop hpart))

end Name

/-! ## Inputs -/

/-- The texts that a name is built from. -/
def NameInput.texts : NameInput → List String
  | .text s => [s]
  | .parts ps => ps
  | .name x => [x.text]

def NameInput.WellFormed (input : NameInput) : Prop :=
  ∀ t ∈ input.texts, Name.WellFormedText t

/-- The texts in a value that a name can be built from. -/
def Value.nameTexts : Value → List String
  | .str s => [s]
  | .name x => [x.text]
  | .list items => items.filterMap str?
  | _ => []

theorem NameInput.wellFormedText_preparedText_iff {input : NameInput}
    (h : ¬ input.hasNoPart = true) :
    Name.WellFormedText input.preparedText ↔ input.WellFormed := by
  cases input with
  | text s => exact List.forall_mem_singleton.symm
  | name x => exact List.forall_mem_singleton.symm
  | parts ps =>
    have hne : ps ≠ [] := fun hnil => h (hasNoPart_iff.2 (congrArg parts hnil))
    exact Name.wellFormedText_joinParts_iff hne

theorem wellFormedText_joined_iff {kind : NameKind} {attributes : Attributes}
    {inputs : List NameInput} {r : Name} (h : joined kind attributes inputs = .ok (some r)) :
    Name.WellFormedText r.text ↔ ∀ input ∈ inputs, input.WellFormed := by
  by_cases hany : inputs.any NameInput.hasNoPart = true
  · rw [joined_of_any hany] at h
    cases h
  have hparts : ∀ input ∈ inputs, ¬ input.hasNoPart = true :=
    fun input hinput hno => hany (List.any_eq_true.2 ⟨input, hinput, hno⟩)
  rw [joined_of_not_any hany, nameOfTexts?] at h
  split at h
  · cases h
  · next hne =>
    cases h
    rw [Name.wellFormedText_joinParts_iff hne]
    constructor
    · intro h input hinput
      exact (NameInput.wellFormedText_preparedText_iff (hparts input hinput)).1
        (h _ (List.mem_map_of_mem hinput))
    · intro h t ht
      obtain ⟨input, hinput, rfl⟩ := List.mem_map.1 ht
      exact (NameInput.wellFormedText_preparedText_iff (hparts input hinput)).2 (h input hinput)

theorem joined_eq_some {kind : NameKind} {attributes : Attributes} {inputs : List NameInput}
    (hne : inputs ≠ []) (h : ∀ input ∈ inputs, input ≠ .parts []) :
    ∃ r, joined kind attributes inputs = .ok (some r) := by
  have hany : ¬ inputs.any NameInput.hasNoPart = true := by
    rw [List.any_eq_true]
    rintro ⟨input, hinput, hno⟩
    exact h input hinput (NameInput.hasNoPart_iff.1 hno)
  rw [joined_of_not_any hany, nameOfTexts?, if_neg (mt List.map_eq_nil_iff.1 hne)]
  exact ⟨_, rfl⟩

theorem NameInput.strings?_eq_some {items : List Value} {ps : List String}
    (h : strings? items = some ps) : ps = items.filterMap Value.str? := by
  induction items generalizing ps with
  | nil =>
    cases h
    rfl
  | cons v items ih =>
    unfold strings? at h
    split at h
    · next s ss hs hss =>
      cases h
      rw [List.filterMap_cons_some hs, ih hss]
    · cases h

/-- What is read from a value has the texts in the value. -/
theorem NameInput.texts_of_result_ofValue {v : Value} {input : NameInput}
    (h : (ofValue v).result = .ok input) : input.texts = v.nameTexts := by
  unfold ofValue at h
  split at h
  · cases h
    rfl
  · cases h
    rfl
  · next items =>
    split at h
    · next ps hps =>
      cases h
      exact strings?_eq_some hps
    · cases h
  · cases h

/-! ## Runs -/

/-- What a step takes a name from: an input, or a stored value that is read as one. -/
inductive Operand where
  | input (x : NameInput)
  | stored (v : Value)

namespace Operand

def read : Operand → Attempt NameInput
  | input x => return x
  | stored v => NameInput.ofValue v

def texts : Operand → List String
  | input x => x.texts
  | stored v => v.nameTexts

theorem texts_of_result_read {operand : Operand} {input : NameInput}
    (h : operand.read.result = .ok input) : input.texts = operand.texts := by
  cases operand with
  | input x =>
    cases h
    rfl
  | stored v => exact NameInput.texts_of_result_ofValue h

theorem texts_of_result_mapM {operand : Option Operand} {input : Option NameInput}
    (h : (operand.mapM read).result = .ok input) :
    input.toList.flatMap NameInput.texts = operand.toList.flatMap texts := by
  cases operand with
  | none =>
    cases h
    rfl
  | some operand =>
    obtain ⟨x, hx, hsome⟩ := Attempt.exists_of_result_bind_eq_ok h
    cases hsome
    have htexts := texts_of_result_read hx
    simp [htexts]

end Operand

/-- A step of a run that makes names. -/
inductive NameStep where
  | build (kind : NameKind) (operand : Operand) (attributes : Attributes)
  | concat (kind : NameKind) (a b : Option Operand) (attributes : Attributes)
  | slice (x : Name) (offset : Int) (length : Option Int)

namespace NameStep

/-- How the step ends. -/
def attempt : NameStep → Attempt (Option Name)
  | build kind operand attributes => do
    let input ← operand.read
    some <$> Name.build kind input attributes
  | concat kind a b attributes => do
    let a ← a.mapM Operand.read
    let b ← b.mapM Operand.read
    kind.concat a b attributes
  | slice x offset length => x.slice offset length

/-- The name that the step makes, unless it is refused or there is none. -/
def made (step : NameStep) : List Name :=
  match step.attempt.result with
  | .ok r => r.toList
  | .error _ => []

def texts : NameStep → List String
  | build _ operand _ => operand.texts
  | concat _ a b _ => (a.toList ++ b.toList).flatMap Operand.texts
  | slice x _ _ => [x.text]

end NameStep

/-- The names that the steps of a run make, in order. -/
def namesMade (steps : List NameStep) : List Name :=
  steps.flatMap NameStep.made

/-- Every text that a step is given is supplied from outside, or it is the text or a part of a name
made before: of one in `made` or by a step in front of it. -/
def Fed (supplied : String → Prop) : List Name → List NameStep → Prop
  | _, [] => True
  | made, step :: steps =>
    (∀ t ∈ step.texts, supplied t ∨ ∃ x ∈ made, t = x.text ∨ t ∈ x.parts) ∧
      Fed supplied (made ++ step.made) steps

theorem NameStep.made_eq_of_result_attempt {step : NameStep} {r : Option Name}
    (h : step.attempt.result = .ok r) : step.made = r.toList := by
  rw [made, h]

theorem NameStep.result_attempt_of_mem_made {step : NameStep} {x : Name} (h : x ∈ step.made) :
    step.attempt.result = .ok (some x) := by
  unfold made at h
  split at h
  · next r hr =>
    rw [Option.mem_toList] at h
    rw [hr, h]
  · cases h

/-- A step makes a well-formed name of well-formed texts. -/
theorem NameStep.wellFormedText_of_mem_made {step : NameStep}
    (h : ∀ t ∈ step.texts, Name.WellFormedText t) {x : Name} (hx : x ∈ step.made) :
    Name.WellFormedText x.text := by
  have hresult := result_attempt_of_mem_made hx
  cases step with
  | build kind operand attributes =>
    obtain ⟨input, hread, hbuild⟩ := Attempt.exists_of_result_bind_eq_ok hresult
    rw [Name.result_build] at hbuild
    apply (wellFormedText_joined_iff hbuild).2
    intro input' hinput t ht
    rw [List.mem_singleton.1 hinput, Operand.texts_of_result_read hread] at ht
    exact h t ht
  | concat kind a b attributes =>
    obtain ⟨a', ha, hresult⟩ := Attempt.exists_of_result_bind_eq_ok hresult
    obtain ⟨b', hb, hconcat⟩ := Attempt.exists_of_result_bind_eq_ok hresult
    rw [NameKind.result_concat] at hconcat
    apply (wellFormedText_joined_iff hconcat).2
    intro input hinput t ht
    have hmem : t ∈ (a'.toList ++ b'.toList).flatMap NameInput.texts :=
      List.mem_flatMap.2 ⟨input, hinput, ht⟩
    rw [List.flatMap_append, Operand.texts_of_result_mapM ha, Operand.texts_of_result_mapM hb,
      ← List.flatMap_append] at hmem
    exact h t hmem
  | slice x offset length =>
    exact Name.wellFormedText_of_slice (h x.text (List.mem_singleton_self _)) hresult

/-- A run that is fed with well-formed texts makes well-formed names only. -/
theorem wellFormedText_of_fed {supplied : String → Prop}
    (hsupplied : ∀ t, supplied t → Name.WellFormedText t) {made : List Name}
    (hmade : ∀ x ∈ made, Name.WellFormedText x.text) {steps : List NameStep}
    (h : Fed supplied made steps) : ∀ x ∈ namesMade steps, Name.WellFormedText x.text := by
  induction steps generalizing made with
  | nil => exact fun x hx => nomatch hx
  | cons step steps ih =>
    obtain ⟨htexts, hsteps⟩ := h
    have hstep : ∀ x ∈ step.made, Name.WellFormedText x.text := by
      intro x hx
      refine NameStep.wellFormedText_of_mem_made (fun t ht => ?_) hx
      rcases htexts t ht with hgiven | ⟨y, hy, rfl | hpart⟩
      · exact hsupplied t hgiven
      · exact hmade y hy
      · exact Name.wellFormedText_of_mem_parts (hmade y hy) hpart
    have hall : ∀ x ∈ made ++ step.made, Name.WellFormedText x.text := by
      intro x hx
      rcases List.mem_append.1 hx with hx | hx
      · exact hmade x hx
      · exact hstep x hx
    intro x hx
    rw [namesMade, List.flatMap_cons, List.mem_append] at hx
    rcases hx with hx | hx
    · exact hstep x hx
    · exact ih hall hsteps x hx

/-- Well-formed texts make well-formed names, whatever is done with them: a run that builds, joins and
cuts names, reads them from stored values and goes on with what it made, makes well-formed names only
if all that is supplied from outside is well formed. A name that is built from parts, or joined from
two operands, is well formed just if each of them is. -/
theorem wellFormed_names_from_wellFormed_texts :
    (∀ s, Name.WellFormedText s ↔
      s ≠ "" ∧ s.toList.head? ≠ some separator ∧ s.toList.getLast? ≠ some separator ∧
        ¬ [separator, separator] <:+: s.toList) ∧
    (∀ (supplied : String → Prop) (steps : List NameStep),
      (∀ t, supplied t → Name.WellFormedText t) → Fed supplied [] steps →
        ∀ x ∈ namesMade steps, Name.WellFormedText x.text) ∧
    (∀ (kind : NameKind) (ps : List String) (attributes : Attributes), ps ≠ [] →
      ∃ r, (Name.build kind (.parts ps) attributes).result = .ok r ∧
        (Name.WellFormedText r.text ↔ ∀ p ∈ ps, Name.WellFormedText p)) ∧
    (∀ (kind : NameKind) (a b : NameInput) (attributes : Attributes),
      a ≠ .parts [] → b ≠ .parts [] →
        ∃ r, (kind.concat (some a) (some b) attributes).result = .ok (some r) ∧
          (Name.WellFormedText r.text ↔ a.WellFormed ∧ b.WellFormed)) ∧
    (∀ (x r : Name) (offset : Int) (length : Option Int), Name.WellFormedText x.text →
      (x.slice offset length).result = .ok (some r) → Name.WellFormedText r.text) := by
  refine ⟨?_, ?_, ?_, ?_, ?_⟩
  · intro s
    exact Name.wellFormedText_iff
  · intro supplied steps hsupplied hfed
    have hnone : ∀ x ∈ ([] : List Name), Name.WellFormedText x.text := fun x hx => nomatch hx
    exact wellFormedText_of_fed hsupplied hnone hfed
  · intro kind ps attributes hne
    exact ⟨_, Name.result_build_parts kind hne attributes, Name.wellFormedText_joinParts_iff hne⟩
  · intro kind a b attributes ha hb
    have hne : [a, b] ≠ [] := List.cons_ne_nil _ _
    obtain ⟨r, hr⟩ := @joined_eq_some kind attributes [a, b] hne (by simp [ha, hb])
    refine ⟨r, (NameKind.result_concat kind (some a) (some b) attributes).trans hr, ?_⟩
    rw [wellFormedText_joined_iff hr]
    simp
  · intro x r offset length hx h
    exact Name.wellFormedText_of_slice hx h

/-- A run that builds a name from a stored list, cuts it from the end, and joins the slice with the
whole, which it reads back from a stored value. -/
theorem wellFormed_names_from_stored_list :
    let supplied (t : String) : Prop := t = "A" ∨ t = "B\\C"
    let stored : Operand := .stored (.list [.str "A", .str "B\\C"])
    let whole : Name := { text := "A\\B\\C", kind := .relative, attributes := ∅ }
    let back : Name := { text := "B\\C", kind := .relative, attributes := ∅ }
    let steps : List NameStep := [.build .relative stored ∅, .slice whole (-2) none,
      .concat .plain (some (.input (.name back))) (some (.stored (.name whole))) ∅]
    ((∀ t, supplied t → Name.WellFormedText t) ∧ Fed supplied [] steps ∧
      ∀ x ∈ namesMade steps, Name.WellFormedText x.text) ∧
    (["A", "B\\C"] ≠ [] ∧ ∃ r, (Name.build .plain (.parts ["A", "B\\C"]) ∅).result = .ok r ∧
      (Name.WellFormedText r.text ↔ ∀ p ∈ ["A", "B\\C"], Name.WellFormedText p)) ∧
    (NameInput.text "A\\" ≠ .parts [] ∧ NameInput.name whole ≠ .parts [] ∧
      ∃ r, (NameKind.plain.concat (some (.text "A\\")) (some (.name whole)) ∅).result =
          .ok (some r) ∧
        (Name.WellFormedText r.text ↔
          (NameInput.text "A\\").WellFormed ∧ (NameInput.name whole).WellFormed)) ∧
    (Name.WellFormedText whole.text ∧ (whole.slice (-2) none).result = .ok (some back) ∧
      Name.WellFormedText back.text) := by
  intro supplied stored whole back steps
  obtain ⟨-, hruns, hbuilds, hjoins, hslices⟩ := wellFormed_names_from_wellFormed_texts
  have hcount : whole.parts.length = 3 := by decide
  have hrange : Name.Resolves whole.parts.length (-2) none 1 3 := by
    rw [hcount]
    exact Name.resolves_none (by decide) rfl
  have htext : Name.joinParts ((whole.parts.take 3).drop 1) = "B\\C" := by decide
  have hslice : (whole.slice (-2) none).result = .ok (some back) := by
    rw [Name.slice_of_resolves hrange, Name.ofRange, if_pos (by decide), htext]
    rfl
  have hsupplied : ∀ t, supplied t → Name.WellFormedText t := by
    rintro t (rfl | rfl) <;> decide
  have hfed : Fed supplied [] steps := by
    have hbuilt : NameStep.made (.build .relative stored ∅) = [whole] := rfl
    have hcut : NameStep.made (.slice whole (-2) none) = (some back).toList :=
      NameStep.made_eq_of_result_attempt hslice
    simp only [steps, Fed, hbuilt, hcut, Option.toList_some, List.nil_append,
      List.singleton_append, and_true]
    refine ⟨?_, ?_, ?_⟩
    · simp [NameStep.texts, Operand.texts, Value.nameTexts, Value.str?, stored, supplied]
    · simp [NameStep.texts]
    · simp [NameStep.texts, Operand.texts, NameInput.texts, Value.nameTexts]
  have hne : ["A", "B\\C"] ≠ [] := List.cons_ne_nil _ _
  have hleft : NameInput.text "A\\" ≠ .parts [] := by simp
  have hright : NameInput.name whole ≠ .parts [] := by simp
  have hwhole : Name.WellFormedText whole.text := by decide
  exact ⟨⟨hsupplied, hfed, hruns supplied steps hsupplied hfed⟩,
    ⟨hne, hbuilds .plain _ ∅ hne⟩,
    ⟨hleft, hright, hjoins .plain (.text "A\\") (.name whole) ∅ hleft hright⟩,
    hwhole, hslice, hslices whole back (-2) none hwhole hslice⟩

end PhpTree
