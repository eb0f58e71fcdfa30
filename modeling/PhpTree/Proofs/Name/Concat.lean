import PhpTree.Name.Input

/-!
# Concatenation is a monoid

Joining operands reads nothing of them but their texts: the outcome is `joined`, which is defined
on any list of inputs. A joined name in the place of its inputs makes no difference
(`joined_nested`), so it does not matter in which order operands are joined, and a missing operand
is the identity.
-/

namespace PhpTree

namespace NameInput

/-- The text that an input stands for; the empty list of parts, which is refused, has none. -/
def preparedText : NameInput → String
  | .text s => s
  | .parts ps => Name.joinParts ps
  | .name x => x.text

/-- Whether the input is the empty list of parts. -/
def hasNoPart : NameInput → Bool
  | .parts [] => true
  | _ => false

theorem hasNoPart_iff {input : NameInput} : input.hasNoPart = true ↔ input = .parts [] := by
  unfold hasNoPart
  split
  · exact ⟨fun _ => rfl, fun _ => rfl⟩
  · next hne => exact ⟨fun h => (nomatch h), fun h => absurd h hne⟩

theorem any_toList_hasNoPart_iff {input : Option NameInput} :
    input.toList.any hasNoPart = true ↔ input = some (.parts []) := by
  cases input with
  | none => simp
  | some input => simp [hasNoPart_iff]

/-- An input is prepared unless it is the empty list of parts. -/
theorem result_prepare (input : NameInput) :
    input.prepare.result =
      if input.hasNoPart then .error Fault.emptyPartList else .ok input.preparedText := by
  cases input with
  | text s => rfl
  | name x => rfl
  | parts ps => cases ps <;> rfl

end NameInput

namespace Name

/-! ## Joining texts -/

theorem joinParts_singleton (s : String) : joinParts [s] = s := by
  simp [joinParts]

theorem joinParts_cons_of_ne_nil (s : String) {ts : List String} (h : ts ≠ []) :
    joinParts (s :: ts) = joinTexts s (joinParts ts) := by
  rw [joinParts, joinParts, List.map_cons, List.intercalate_cons_of_ne_nil (by simpa using h),
    joinTexts]
  apply String.toList_injective
  simp

theorem joinParts_pair (s t : String) : joinParts [s, t] = joinTexts s t := by
  rw [joinParts_cons_of_ne_nil s (List.cons_ne_nil t []), joinParts_singleton]

/-- A joined text in front stands for its parts. -/
theorem joinParts_joinParts_cons {ss : List String} (hne : ss ≠ []) (ts : List String) :
    joinParts (joinParts ss :: ts) = joinParts (ss ++ ts) := by
  induction ss with
  | nil => exact absurd rfl hne
  | cons s ss ih =>
    by_cases hss : ss = []
    · rw [hss, joinParts_singleton, List.singleton_append]
    · by_cases hts : ts = []
      · rw [hts, joinParts_singleton, List.append_nil]
      · have happ : ss ++ ts ≠ [] := fun h => hss (List.append_eq_nil_iff.1 h).1
        rw [List.cons_append, joinParts_cons_of_ne_nil s hss, joinParts_cons_of_ne_nil s happ,
          ← ih hss, joinParts_cons_of_ne_nil _ hts, joinParts_cons_of_ne_nil _ hts]
        simp only [joinTexts, String.append_assoc]

theorem joinParts_append_joinParts (rs : List String) {ss : List String} (hne : ss ≠ [])
    (ts : List String) : joinParts (rs ++ joinParts ss :: ts) = joinParts (rs ++ (ss ++ ts)) := by
  induction rs with
  | nil => exact joinParts_joinParts_cons hne ts
  | cons r rs ih =>
    have hleft : rs ++ joinParts ss :: ts ≠ [] := by simp
    have hright : rs ++ (ss ++ ts) ≠ [] := by simp [hne]
    rw [List.cons_append, List.cons_append, joinParts_cons_of_ne_nil r hleft,
      joinParts_cons_of_ne_nil r hright, ih]

end Name

/-! ## Joining inputs -/

/-- The name of the texts, unless there are none. -/
def nameOfTexts? (kind : NameKind) (attributes : Attributes) (texts : List String) : Option Name :=
  if texts = [] then none
  else some { text := Name.joinParts texts, kind := kind, attributes := attributes }

/-- What joining inputs comes to: refused if one of them is the empty list of parts, and else the
name of their texts. -/
def joined (kind : NameKind) (attributes : Attributes) (inputs : List NameInput) :
    Except Fault (Option Name) :=
  if inputs.any NameInput.hasNoPart then .error Fault.emptyPartList
  else .ok (nameOfTexts? kind attributes (inputs.map NameInput.preparedText))

section Joined

variable {kind : NameKind} {attributes : Attributes}

theorem joined_of_any {inputs : List NameInput} (h : inputs.any NameInput.hasNoPart = true) :
    joined kind attributes inputs = .error Fault.emptyPartList :=
  if_pos h

theorem joined_of_not_any {inputs : List NameInput} (h : ¬ inputs.any NameInput.hasNoPart = true) :
    joined kind attributes inputs =
      .ok (nameOfTexts? kind attributes (inputs.map NameInput.preparedText)) :=
  if_neg h

theorem joined_eq_error_iff {inputs : List NameInput} :
    joined kind attributes inputs = .error Fault.emptyPartList ↔
      inputs.any NameInput.hasNoPart = true := by
  unfold joined
  split
  · next h => exact ⟨fun _ => h, fun _ => rfl⟩
  · next h => exact ⟨fun he => (nomatch he), fun he => absurd he h⟩

theorem joined_eq_none_iff {inputs : List NameInput} :
    joined kind attributes inputs = .ok none ↔ inputs = [] := by
  constructor
  · intro h
    unfold joined nameOfTexts? at h
    split at h
    · cases h
    · split at h
      · next hnil => exact List.map_eq_nil_iff.1 hnil
      · cases h
  · rintro rfl
    rfl

/-- Of a name that is joined only the text counts. -/
theorem joined_name_congr {u v : Name} (h : u.text = v.text) (before after : List NameInput) :
    joined kind attributes (before ++ .name u :: after) =
      joined kind attributes (before ++ .name v :: after) := by
  simp only [joined, List.any_append, List.any_cons, List.map_append, List.map_cons,
    NameInput.hasNoPart, NameInput.preparedText, h]

/-- A name that was joined before stands for its inputs, whatever its kind and attributes. -/
theorem joined_nested (kind₁ : NameKind) (attributes₁ : Attributes)
    (before inner after : List NameInput) :
    (joined kind₁ attributes₁ inner >>= fun x =>
      joined kind attributes (before ++ ((x.map .name).toList ++ after))) =
      joined kind attributes (before ++ (inner ++ after)) := by
  by_cases hinner : inner.any NameInput.hasNoPart = true
  · -- The input that spoils the inner join spoils the outer one with the same fault.
    have hall : (before ++ (inner ++ after)).any NameInput.hasNoPart = true := by simp [hinner]
    rw [joined_of_any hinner, joined_of_any hall]
    rfl
  rw [joined_of_not_any hinner]
  change joined kind attributes (before ++ ((Option.map .name (nameOfTexts? kind₁ attributes₁
    (inner.map NameInput.preparedText))).toList ++ after)) = _
  cases inner with
  | nil => rfl
  | cons input inputs =>
    -- There is an inner name, and it goes in as one text that was joined already.
    rw [nameOfTexts?, if_neg (by simp)]
    unfold joined
    congr 1
    · simp only [List.any_append, Bool.not_eq_true] at hinner ⊢
      rw [hinner]
      simp [NameInput.hasNoPart]
    · unfold nameOfTexts?
      simp only [List.map_append, Option.map_some, Option.toList_some, List.map_cons,
        List.singleton_append, NameInput.preparedText]
      rw [Name.joinParts_append_joinParts _ (List.cons_ne_nil _ _)]
      simp

end Joined

/-! ## Concatenation -/

theorem Name.result_build (kind : NameKind) (input : NameInput) (attributes : Attributes) :
    (some <$> Name.build kind input attributes).result = joined kind attributes [input] := by
  rw [Name.build, map_bind, Attempt.result_bind, NameInput.result_prepare]
  unfold joined
  rw [List.any_cons, List.any_nil, Bool.or_false]
  split
  · rfl
  · simp [nameOfTexts?, Name.joinParts_singleton, bind, Except.bind]

/-- Concatenation joins the operands that are there. -/
theorem NameKind.result_concat (kind : NameKind) (a b : Option NameInput)
    (attributes : Attributes) :
    (kind.concat a b attributes).result = joined kind attributes (a.toList ++ b.toList) := by
  cases a with
  | none =>
    cases b with
    | none => rfl
    | some b => exact Name.result_build kind b attributes
  | some a =>
    cases b with
    | none => exact Name.result_build kind a attributes
    | some b =>
      rw [NameKind.concat, Attempt.result_bind, NameInput.result_prepare]
      cases ha : a.hasNoPart with
      | true =>
        have hany : [a, b].any NameInput.hasNoPart = true := by simp [ha]
        exact (joined_of_any hany).symm
      | false =>
        change ((do
          let t ← b.prepare
          return some { text := Name.joinTexts a.preparedText t, kind, attributes }
            : Attempt (Option Name))).result = _
        rw [Attempt.result_bind, NameInput.result_prepare]
        cases hb : b.hasNoPart with
        | true =>
          have hany : [a, b].any NameInput.hasNoPart = true := by simp [hb]
          exact (joined_of_any hany).symm
        | false =>
          have hany : ¬ [a, b].any NameInput.hasNoPart = true := by simp [ha, hb]
          refine Eq.trans ?_ (joined_of_not_any hany).symm
          rw [List.map_cons, List.map_cons, List.map_nil, nameOfTexts?, if_neg (by simp),
            Name.joinParts_pair]
          rfl

/-- Concatenation is a monoid on all operands: texts, lists of parts, names, and missing ones. Two
bracketings of three operands agree, whatever the kinds and attributes given to the inner name. They
are refused exactly if one of the operands is the empty list of parts, they make no name exactly if
all three are missing, and otherwise the name has the kind and attributes asked for and the texts of
the operands in order, with separators between them. A missing operand is the identity, and nothing
but the text of an operand matters. -/
theorem concat_monoid (kind₁ kind₂ kind : NameKind) (attributes₁ attributes₂ attributes : Attributes)
    (x y z : Option NameInput) :
    let left := (kind₁.concat x y attributes₁).result >>= fun xy =>
      (kind.concat (xy.map .name) z attributes).result
    let right := (kind₂.concat y z attributes₂).result >>= fun yz =>
      (kind.concat x (yz.map .name) attributes).result
    let refused := x = some (.parts []) ∨ y = some (.parts []) ∨ z = some (.parts [])
    let missing := x = none ∧ y = none ∧ z = none
    left = right ∧
    (left = .error (.invalidArgument "Name part array cannot be empty") ↔ refused) ∧
    (left = .ok none ↔ missing) ∧
    (¬ refused → ¬ missing → left = .ok (some
      { text := Name.joinParts ((x.toList ++ y.toList ++ z.toList).map NameInput.preparedText),
        kind := kind, attributes := attributes })) ∧
    (kind.concat none none attributes).result = .ok none ∧
    (∀ b, (kind.concat none (some b) attributes).result =
        some <$> (Name.build kind b attributes).result ∧
      (kind.concat (some b) none attributes).result =
        some <$> (Name.build kind b attributes).result) ∧
    (∀ u v : Name, u.text = v.text → ∀ b,
      (kind.concat (some (.name u)) b attributes).result =
        (kind.concat (some (.name v)) b attributes).result ∧
      (kind.concat b (some (.name u)) attributes).result =
        (kind.concat b (some (.name v)) attributes).result) := by
  intro left right refused missing
  have hleft : left = joined kind attributes (x.toList ++ y.toList ++ z.toList) := by
    have hnested := @joined_nested kind attributes kind₁ attributes₁ [] (x.toList ++ y.toList)
      z.toList
    simpa only [left, NameKind.result_concat, List.nil_append] using hnested
  have hright : right = joined kind attributes (x.toList ++ y.toList ++ z.toList) := by
    have hnested := @joined_nested kind attributes kind₂ attributes₂ x.toList
      (y.toList ++ z.toList) []
    simpa only [right, NameKind.result_concat, List.append_nil, List.append_assoc] using hnested
  have hrefused : (x.toList ++ y.toList ++ z.toList).any NameInput.hasNoPart = true ↔ refused := by
    simp only [List.any_append, Bool.or_eq_true, NameInput.any_toList_hasNoPart_iff, or_assoc, refused]
  have hmissing : (x.toList ++ y.toList ++ z.toList) = [] ↔ missing := by
    simp only [List.append_eq_nil_iff, Option.toList_eq_nil_iff, and_assoc, missing]
  refine ⟨hleft.trans hright.symm, ?_, ?_, ?_, NameKind.result_concat kind none none attributes, ?_,
    ?_⟩
  · rw [hleft, ← hrefused]
    exact joined_eq_error_iff
  · rw [hleft, ← hmissing]
    exact joined_eq_none_iff
  · intro hnot hpresent
    have hany : ¬ (x.toList ++ y.toList ++ z.toList).any NameInput.hasNoPart = true :=
      fun h => hnot (hrefused.1 h)
    rw [hleft, joined_of_not_any hany, nameOfTexts?, if_neg]
    rw [List.map_eq_nil_iff, hmissing]
    exact hpresent
  · intro b
    rw [NameKind.result_concat, NameKind.result_concat, ← Attempt.result_map, Name.result_build]
    exact ⟨rfl, rfl⟩
  · intro u v huv b
    simp only [NameKind.result_concat]
    exact ⟨joined_name_congr huv [] b.toList, joined_name_congr huv b.toList []⟩

end PhpTree
