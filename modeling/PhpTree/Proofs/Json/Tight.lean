import PhpTree.Proofs.Json.Layouts

/-!
# No blanks outside of strings

A scan of a text that tells apart the characters inside and outside of string literals. Scanning
the compact text of a value meets no blank outside of the strings.
-/

namespace PhpTree.Json

open Grammar (IsBlank)

/-! ## Scanning -/

/-- Where a character stands: outside of the strings, in a string, or behind a backslash in one. -/
inductive Place where
  | outside
  | inside
  | escaped
deriving DecidableEq

/-- Where the next character stands. -/
def Place.next : Place → Char → Place
  | .outside, c => if c = '"' then .inside else .outside
  | .inside, c => if c = '"' then .outside else if c = '\\' then .escaped else .inside
  | .escaped, _ => .inside

/-- The characters that stand outside of the strings. -/
def outsideStrings : Place → List Char → List Char
  | _, [] => []
  | place, c :: cs =>
    if place = .outside then c :: outsideStrings (place.next c) cs
    else outsideStrings (place.next c) cs

theorem outsideStrings_append (place : Place) (cs ds : List Char) :
    outsideStrings place (cs ++ ds) =
      outsideStrings place cs ++ outsideStrings (cs.foldl Place.next place) ds := by
  induction cs generalizing place with
  | nil => rfl
  | cons c cs ih =>
    simp only [List.cons_append, outsideStrings, List.foldl_cons, ih]
    split <;> rfl

theorem outsideStrings_inside_cons (c : Char) (cs : List Char) :
    outsideStrings .inside (c :: cs) = outsideStrings (Place.inside.next c) cs :=
  rfl

/-- Scanned from outside, a piece of text has no blank outside of its strings and closes them. -/
structure Tight (cs : List Char) : Prop where
  no_blank : ∀ c ∈ outsideStrings .outside cs, ¬ IsBlank c
  closed : cs.foldl Place.next .outside = .outside

namespace Tight

theorem append {cs ds : List Char} (hcs : Tight cs) (hds : Tight ds) : Tight (cs ++ ds) := by
  constructor
  · intro c hc
    rw [outsideStrings_append, hcs.closed, List.mem_append] at hc
    rcases hc with hc | hc
    · exact hcs.no_blank c hc
    · exact hds.no_blank c hc
  · rw [List.foldl_append, hcs.closed, hds.closed]

theorem nil : Tight [] :=
  ⟨fun _ h => (List.not_mem_nil h).elim, rfl⟩

theorem cons {c : Char} {cs : List Char} (hblank : ¬ IsBlank c) (hquote : c ≠ '"')
    (hcs : Tight cs) : Tight (c :: cs) := by
  have hnext : Place.outside.next c = .outside := if_neg hquote
  constructor
  · intro d hd
    rw [outsideStrings, if_pos rfl, hnext] at hd
    rcases List.mem_cons.1 hd with rfl | hd
    · exact hblank
    · exact hcs.no_blank d hd
  · rw [List.foldl_cons, hnext, hcs.closed]

theorem of_forall {cs : List Char} (h : ∀ c ∈ cs, ¬ IsBlank c ∧ c ≠ '"') : Tight cs := by
  induction cs with
  | nil => exact nil
  | cons c cs ih =>
    have hc := h c List.mem_cons_self
    exact cons hc.1 hc.2 (ih fun d hd => h d (List.mem_cons_of_mem c hd))

/-- Whether a character is neither a blank nor a quotation mark. -/
def isMark (c : Char) : Bool :=
  !decide (IsBlank c) && c != '"'

theorem of_isMark {c : Char} (h : isMark c = true) : ¬ IsBlank c ∧ c ≠ '"' := by
  rwa [isMark, Bool.and_eq_true, Bool.not_eq_true', decide_eq_false_iff_not, bne_iff_ne] at h

theorem of_marks {cs : List Char} (h : cs.all isMark = true) : Tight cs :=
  of_forall fun c hc => of_isMark (List.all_eq_true.1 h c hc)

theorem cons_mark {c : Char} {cs : List Char} (h : isMark c = true) (hcs : Tight cs) :
    Tight (c :: cs) :=
  cons (of_isMark h).1 (of_isMark h).2 hcs

theorem next_inside {c : Char} (hquote : c ≠ '"') (hescape : c ≠ '\\') :
    Place.inside.next c = .inside := by
  simp only [Place.next, if_neg hquote, if_neg hescape]

/-- An escaped character neither leaves the string nor counts as outside. -/
theorem scan_escapeChar (c : Char) :
    (escapeChar c).foldl Place.next .inside = .inside ∧
      outsideStrings .inside (escapeChar c) = [] := by
  unfold escapeChar
  split
  · exact ⟨rfl, rfl⟩
  · next hnone =>
    split
    · have hplain : ∀ n < 16, Place.inside.next (hexDigit n) = .inside := by decide
      have hhigh := hplain (c.toNat / 16) (by omega)
      have hlow := hplain (c.toNat % 16) (by omega)
      have hstart : ['\\', 'u', '0', '0'].foldl Place.next .inside = .inside := by decide
      have hcode : ∀ a b : Char, Place.inside.next a = .inside → Place.inside.next b = .inside →
          (['\\', 'u', '0', '0'] ++ [a, b]).foldl Place.next .inside = .inside ∧
            outsideStrings .inside (['\\', 'u', '0', '0'] ++ [a, b]) = [] := by
        intro a b ha hb
        have hscan : outsideStrings .inside ['\\', 'u', '0', '0'] = [] := by decide
        rw [List.foldl_append, outsideStrings_append, hstart, hscan, List.nil_append,
          outsideStrings_inside_cons, ha, outsideStrings_inside_cons, hb, List.foldl_cons, ha,
          List.foldl_cons, hb]
        exact ⟨rfl, rfl⟩
      exact hcode _ _ hhigh hlow
    · have hnext : Place.inside.next c = .inside := by
        apply next_inside
        · rintro rfl
          cases hnone
        · rintro rfl
          cases hnone
      exact ⟨hnext, rfl⟩

theorem scan_escapeChars (s : List Char) :
    (escapeChars s).foldl Place.next .inside = .inside ∧
      outsideStrings .inside (escapeChars s) = [] := by
  induction s with
  | nil => exact ⟨rfl, rfl⟩
  | cons c s ih =>
    obtain ⟨hplace, houtside⟩ := scan_escapeChar c
    rw [escapeChars, List.flatMap_cons]
    change ((escapeChar c ++ escapeChars s).foldl Place.next .inside = _) ∧
      outsideStrings .inside (escapeChar c ++ escapeChars s) = []
    rw [List.foldl_append, outsideStrings_append, hplace, houtside]
    exact ih

theorem quote (s : String) : Tight (quote s) := by
  obtain ⟨hplace, houtside⟩ := scan_escapeChars s.toList
  have hscan : outsideStrings .outside (Json.quote s) = ['"'] := by
    change '"' :: outsideStrings .inside (escapeChars s.toList ++ ['"']) = _
    rw [outsideStrings_append, hplace, houtside]
    rfl
  constructor
  · intro c hc
    rw [hscan, List.mem_singleton] at hc
    subst hc
    decide
  · change (escapeChars s.toList ++ ['"']).foldl Place.next .inside = .outside
    rw [List.foldl_append, hplace]
    rfl

theorem number {literal : List Char} (h : Grammar.Number literal) : Tight literal := by
  have hdigit : ∀ c : Char, c.isDigit = true → ¬ IsBlank c ∧ c ≠ '"' := by
    intro c hc
    refine ⟨fun hb => ?_, fun he => ?_⟩
    · rcases hb with rfl | rfl | rfl | rfl <;> exact absurd hc (by decide)
    · subst he
      exact absurd hc (by decide)
  have hdigits : ∀ ds, Grammar.Digits ds → Tight ds :=
    fun ds hds => of_forall fun c hc => hdigit c (hds c hc)
  have hcons : ∀ d ds, d.isDigit = true → Grammar.Digits ds → Tight (d :: ds) :=
    fun d ds hd hds => cons (hdigit d hd).1 (hdigit d hd).2 (hdigits ds hds)
  obtain ⟨hminus, hint, hfrac, hexp⟩ := h
  refine append (append (append ?_ ?_) ?_) ?_
  · rcases hminus with rfl | rfl
    · exact nil
    · exact cons_mark rfl nil
  · rcases hint with _ | ⟨hd, -, hds⟩
    · exact hcons '0' [] (by decide) (fun _ h => (List.not_mem_nil h).elim)
    · exact hcons _ _ hd hds
  · rcases hfrac with rfl | ⟨hd, hds⟩
    · exact nil
    · exact cons_mark rfl (hcons _ _ hd hds)
  · rcases hexp with rfl | ⟨he, hsign, hd, hds⟩
    · exact nil
    · next sign _ =>
      have hsign' : Tight sign := by
        rcases hsign with rfl | rfl | rfl
        · exact nil
        · exact of_marks rfl
        · exact of_marks rfl
      have hrest := hsign'.append (hcons _ _ hd hds)
      rcases he with rfl | rfl
      · exact cons_mark rfl hrest
      · exact cons_mark rfl hrest

end Tight

/-! ## The compact layout -/

mutual

theorem tight_compactChars : ∀ x : Json, x.NumbersValid → Tight (compactChars x)
  | .null, _ => .of_marks rfl
  | .bool true, _ => .of_marks rfl
  | .bool false, _ => .of_marks rfl
  | .num _, h => .number h
  | .str s, _ => .quote s
  | .arr [], _ => .of_marks rfl
  | .arr (x :: xs), ⟨hx, hxs⟩ =>
    .cons_mark rfl ((tight_compactChars x hx).append (tight_compactItems xs hxs))
  | .obj [], _ => .of_marks rfl
  | .obj ((key, x) :: ms), ⟨hx, hms⟩ =>
    .cons_mark rfl ((Tight.quote key).append (.cons_mark rfl
      ((tight_compactChars x hx).append (tight_compactMembers ms hms))))

theorem tight_compactItems : ∀ xs : List Json, ItemsValid xs → Tight (compactItems xs)
  | [], _ => .of_marks rfl
  | x :: xs, ⟨hx, hxs⟩ =>
    .cons_mark rfl ((tight_compactChars x hx).append (tight_compactItems xs hxs))

theorem tight_compactMembers : ∀ ms : List (String × Json), MembersValid ms →
    Tight (compactMembers ms)
  | [], _ => .of_marks rfl
  | (key, x) :: ms, ⟨hx, hms⟩ =>
    .cons_mark rfl ((Tight.quote key).append (.cons_mark rfl
      ((tight_compactChars x hx).append (tight_compactMembers ms hms))))

end

/-- In the compact text of a value no blank stands outside of the strings. -/
theorem tight_compact {x : Json} (h : x.NumbersValid) : Tight x.compact.toList := by
  rw [compact, String.toList_ofList]
  exact tight_compactChars x h

end PhpTree.Json
