import PhpTree.Proofs.Name.Concat
import PhpTree.Proofs.Name.Parts

/-!
# The parts of joined names

Joining texts puts their parts one behind the other, whatever the texts are: the empty text has one
empty part, and separators at an end or next to each other have empty parts between them. So names
and lists of parts without separators correspond one to one, the first part of a joined name is that
of the text in front, and the last one is that of the text behind.
-/

namespace PhpTree

namespace Name

/-! ## Parts of joined texts -/

/-- The parts of joined texts are the parts of each of them, in order. -/
theorem splitText_joinParts_eq_flatMap {texts : List String} (hne : texts ≠ []) :
    splitText (joinParts texts) = texts.flatMap splitText := by
  induction texts with
  | nil => exact absurd rfl hne
  | cons s texts ih =>
    by_cases htexts : texts = []
    · rw [htexts, joinParts_singleton, List.flatMap_singleton]
    · rw [joinParts_cons_of_ne_nil s htexts, splitText_joinTexts, ih htexts, List.flatMap_cons]

/-- Lists of parts without separators are told apart by the texts they join to. -/
theorem joinParts_inj {ps qs : List String} (hps : ps ≠ []) (hqs : qs ≠ [])
    (hsep : ∀ part ∈ ps, separator ∉ part.toList) (hsep' : ∀ part ∈ qs, separator ∉ part.toList)
    (h : joinParts ps = joinParts qs) : ps = qs := by
  rw [← splitText_joinParts hps hsep, h, splitText_joinParts hqs hsep']

/-! ## The first and the last part -/

/-- What stands before the first separator is the first part. -/
theorem head?_parts (x : Name) : x.parts.head? = some x.first := by
  rw [parts, splitText, splitOn_eq_takeWhile_cons]
  rfl

theorem getLast?_splitOn (cs : List Char) :
    (cs.splitOn separator).getLast? =
      some (cs.reverse.takeWhile (· != separator)).reverse := by
  have happ := @List.takeWhile_append_dropWhile _ (· != separator) cs.reverse
  have hhead := List.head?_dropWhile_not (· != separator) cs.reverse
  have hpiece : separator ∉ (cs.reverse.takeWhile (· != separator)).reverse := by
    intro hmem
    simpa using List.all_eq_true.1 List.all_takeWhile _ (List.mem_reverse.1 hmem)
  generalize cs.reverse.takeWhile (· != separator) = piece at happ hpiece ⊢
  have hcs := congrArg List.reverse happ
  rw [List.reverse_append, List.reverse_reverse] at hcs
  -- Behind the last separator, if there is one, no text is split any more.
  cases hfront : cs.reverse.dropWhile (· != separator) with
  | nil =>
    rw [hfront, List.reverse_nil, List.nil_append] at hcs
    rw [← hcs, List.splitOn_eq_singleton hpiece, List.getLast?_singleton]
  | cons c front =>
    rw [hfront] at hhead hcs
    have hc : c = separator := by simpa using hhead
    rw [hc, List.reverse_cons, List.append_assoc, List.singleton_append] at hcs
    rw [← hcs, List.splitOn_append_cons_self, List.splitOn_eq_singleton hpiece,
      List.getLast?_concat]

/-- What stands behind the last separator is the last part. -/
theorem getLast?_parts (x : Name) : x.parts.getLast? = some x.last := by
  rw [parts, splitText, List.getLast?_map, getLast?_splitOn]
  rfl

/-! ## Built names -/

/-- A name is built from every list of parts but the empty one. -/
theorem result_build_parts (kind : NameKind) {ps : List String} (hne : ps ≠ [])
    (attributes : Attributes) :
    (build kind (.parts ps) attributes).result =
      .ok { text := joinParts ps, kind := kind, attributes := attributes } := by
  cases ps with
  | nil => exact absurd rfl hne
  | cons p ps => rfl

theorem result_build_parts_eq_ok {kind : NameKind} {ps : List String} {attributes : Attributes}
    {r : Name} (h : (build kind (.parts ps) attributes).result = .ok r) :
    ps ≠ [] ∧ r.text = joinParts ps := by
  by_cases hne : ps = []
  · rw [hne] at h
    cases h
  · rw [result_build_parts kind hne] at h
    cases h
    exact ⟨hne, rfl⟩

end Name

/-- Two operands that have a text are joined to one name. -/
theorem NameKind.result_concat_of_ok (kind : NameKind) (attributes : Attributes) {a b : NameInput}
    {s t : String} (ha : a.prepare.result = .ok s) (hb : b.prepare.result = .ok t) :
    (kind.concat (some a) (some b) attributes).result =
      .ok (some { text := Name.joinTexts s t, kind := kind, attributes := attributes }) := by
  simp only [NameKind.concat, Attempt.result_bind, ha, hb]
  rfl

/-- Names and parts correspond one to one, and joining names appends their parts. The parts of a
name join to its text, and build a name of this text. A list of texts builds a name whose parts are
the parts of each text in order, so these are the texts themselves if there are no separators in
them, and then different lists build different names. Joining two operands appends their parts; the
first part of the outcome is that of the operand in front, and the last one that of the operand
behind. -/
theorem parts_of_joined_names (kind : NameKind) (attributes : Attributes) :
    (∀ x : Name, Name.joinParts x.parts = x.text ∧
      (Name.build kind (.parts x.parts) attributes).result =
        .ok { text := x.text, kind := kind, attributes := attributes }) ∧
    (∀ ps : List String, ps ≠ [] → ∃ r,
      (Name.build kind (.parts ps) attributes).result = .ok r ∧
        r.parts = ps.flatMap Name.splitText ∧
        ((∀ part ∈ ps, separator ∉ part.toList) → r.parts = ps)) ∧
    (∀ (kind' : NameKind) (attributes' : Attributes) (ps qs : List String) (r r' : Name),
      (∀ part ∈ ps, separator ∉ part.toList) → (∀ part ∈ qs, separator ∉ part.toList) →
      (Name.build kind (.parts ps) attributes).result = .ok r →
      (Name.build kind' (.parts qs) attributes').result = .ok r' → ps ≠ qs → r.text ≠ r'.text) ∧
    (∀ (a b : NameInput) (s t : String), a.prepare.result = .ok s → b.prepare.result = .ok t →
      ∃ r, (kind.concat (some a) (some b) attributes).result = .ok (some r) ∧
        r.parts = Name.splitText s ++ Name.splitText t ∧
        r.parts.length = (Name.splitText s).length + (Name.splitText t).length ∧
        (Name.splitText s).head? = some r.first ∧ (Name.splitText t).getLast? = some r.last) := by
  refine ⟨fun x => ⟨Name.joinParts_splitText x.text, ?_⟩, fun ps hne => ?_, ?_, ?_⟩
  · rw [Name.result_build_parts kind x.parts_ne_nil, Name.parts, Name.joinParts_splitText]
  · refine ⟨_, Name.result_build_parts kind hne attributes,
      Name.splitText_joinParts_eq_flatMap hne, fun hsep => ?_⟩
    exact Name.splitText_joinParts hne hsep
  · intro kind' attributes' ps qs r r' hps hqs hr hr' hne htext
    obtain ⟨hpsne, hrtext⟩ := Name.result_build_parts_eq_ok hr
    obtain ⟨hqsne, hrtext'⟩ := Name.result_build_parts_eq_ok hr'
    rw [hrtext, hrtext'] at htext
    exact hne (Name.joinParts_inj hpsne hqsne hps hqs htext)
  · intro a b s t ha hb
    let r : Name := { text := Name.joinTexts s t, kind := kind, attributes := attributes }
    have hparts : r.parts = Name.splitText s ++ Name.splitText t := Name.splitText_joinTexts s t
    refine ⟨r, kind.result_concat_of_ok attributes ha hb, hparts, ?_, ?_, ?_⟩
    · rw [hparts, List.length_append]
    · have hs := List.isSome_head?.2 (Name.splitText_ne_nil s)
      rw [← r.head?_parts, hparts, List.head?_append, Option.or_of_isSome hs]
    · have ht := List.getLast?_isSome.2 (Name.splitText_ne_nil t)
      rw [← r.getLast?_parts, hparts, List.getLast?_append, Option.or_of_isSome ht]

/-- Separators at an end and next to each other have empty parts, which are kept: in a list of texts
that hold separators themselves, in lists without separators, and in joined operands. -/
theorem parts_of_joined_empty_parts :
    let x : Name := { text := "A\\", kind := .relative, attributes := ∅ }
    let y : Name := { text := "\\A", kind := .plain, attributes := ∅ }
    (["A\\", "", "B"] ≠ [] ∧
      ∃ r, (Name.build .relative (.parts ["A\\", "", "B"]) ∅).result = .ok r ∧
        r.parts = ["A", "", "", "B"]) ∧
    ((∀ part ∈ ["A", ""], separator ∉ part.toList) ∧
      (Name.build .relative (.parts ["A", ""]) ∅).result = .ok x ∧
      (Name.build .plain (.parts ["", "A"]) ∅).result = .ok y ∧ x.text ≠ y.text) ∧
    ((NameInput.name y).prepare.result = .ok "\\A" ∧
      (NameInput.parts ["", "B"]).prepare.result = .ok "\\B" ∧
      ∃ r, (NameKind.relative.concat (some (.name y)) (some (.parts ["", "B"])) ∅).result =
          .ok (some r) ∧
        r.parts = ["", "A", "", "B"] ∧ r.parts.length = 4 ∧ r.first = "" ∧ r.last = "B") := by
  intro x y
  obtain ⟨-, hbuilt, hdistinct, hjoined⟩ := parts_of_joined_names .relative ∅
  have hne : ["A\\", "", "B"] ≠ [] := List.cons_ne_nil _ _
  have hsep : ∀ part ∈ ["A", ""], separator ∉ part.toList := by decide
  have hsep' : ∀ part ∈ ["", "A"], separator ∉ part.toList := by decide
  refine ⟨⟨hne, ?_⟩, ⟨hsep, rfl, rfl, ?_⟩, rfl, rfl, ?_⟩
  · obtain ⟨r, hr, hparts, -⟩ := hbuilt ["A\\", "", "B"] hne
    exact ⟨r, hr, hparts.trans (by decide)⟩
  · exact hdistinct .plain ∅ ["A", ""] ["", "A"] x y hsep hsep' rfl rfl (by decide)
  · obtain ⟨r, hr, hparts, hlength, hfirst, hlast⟩ :=
      hjoined (.name y) (.parts ["", "B"]) "\\A" "\\B" rfl rfl
    exact ⟨r, hr, hparts.trans (by decide), hlength.trans (by decide),
      (Option.some.inj hfirst).symm, (Option.some.inj hlast).symm⟩

end PhpTree
