import PhpTree.Json.Printer
import PhpTree.Proofs.Json.ReaderCorrect

/-!
# Both layouts stand for the value

The compact and the indented text of a value whose numbers are written as the grammar wants them
stand for this value, members in order, and so both are read back as it. In the compact text no
blank stands outside of the strings.
-/

namespace PhpTree.Json

open Grammar (IsBlank Ws)

/-! ## Quoted strings -/

theorem letterMeaning?_of_escapeLetter? {c l : Char} (h : escapeLetter? c = some l) :
    letterMeaning? l = some c := by
  unfold escapeLetter? at h
  split at h
  case h_8 => cases h
  all_goals
    cases h
    rfl

theorem hexValue?_hexDigit : ∀ n < 16, hexValue? (hexDigit n) = some n := by
  decide

/-- A character is in quotes what its escaped form stands for. -/
theorem charOf_escapeChar (c : Char) (rest : List Char) : CharOf (escapeChar c ++ rest) c rest := by
  unfold escapeChar
  split
  · next l hl => exact .letter (letterMeaning?_of_escapeLetter? hl)
  · next hnone =>
    split
    · next hcontrol =>
      have hhigh := hexValue?_hexDigit (c.toNat / 16) (by omega)
      have hlow := hexValue?_hexDigit (c.toNat % 16) (by omega)
      have hcode : Hex4 ('0' :: '0' :: hexDigit (c.toNat / 16) :: hexDigit (c.toNat % 16) :: rest)
          (((0 * 16 + 0) * 16 + c.toNat / 16) * 16 + c.toNat % 16) rest :=
        .mk (by decide) (by decide) hhigh hlow
      have hvalue : ((0 * 16 + 0) * 16 + c.toNat / 16) * 16 + c.toNat % 16 = c.toNat := by omega
      rw [hvalue] at hcode
      have hchar := CharOf.code hcode (fun h => by unfold IsHighSurrogate at h; omega)
        (fun h => by unfold IsLowSurrogate at h; omega)
      rwa [Char.ofNat_toNat] at hchar
    · next hprint =>
      refine .unescaped ⟨Nat.le_of_not_lt hprint, ?_, ?_⟩
      · rintro rfl
        cases hnone
      · rintro rfl
        cases hnone

theorem charsOf_escapeChars (s rest : List Char) :
    CharsOf (escapeChars s ++ '"' :: rest) s rest := by
  induction s with
  | nil => exact .close
  | cons c s ih =>
    have happ : escapeChars (c :: s) ++ '"' :: rest =
        escapeChar c ++ (escapeChars s ++ '"' :: rest) := by
      rw [escapeChars, List.flatMap_cons, List.append_assoc]
      rfl
    rw [happ]
    exact .cons (charOf_escapeChar c _) ih

theorem quote_append (s : String) (rest : List Char) :
    quote s ++ rest = '"' :: (escapeChars s.toList ++ '"' :: rest) := by
  simp [quote]

theorem valueOf_quote (s : String) (rest : List Char) : ValueOf (quote s ++ rest) (.str s) rest := by
  have h := ValueOf.str (charsOf_escapeChars s.toList rest)
  rwa [← quote_append, String.ofList_toList] at h

/-- A quoted key, a colon, perhaps blanks, and the text of a value are the text of a member. -/
theorem memberOf_quote (key : String) {gap cs : List Char} {x : Json} (hgap : Ws gap)
    (hx : ∀ rest, ValueOf (cs ++ rest) x rest) (rest : List Char) :
    MemberOf (quote key ++ ':' :: (gap ++ cs) ++ rest) (key, x) rest := by
  have h := MemberOf.mk (charsOf_escapeChars key.toList _) .nil (Blanks.of_ws hgap _) (hx rest)
  rw [← quote_append, String.ofList_toList] at h
  rwa [List.append_assoc, List.cons_append, List.append_assoc]

/-! ## Numbers in a value -/

mutual

/-- Whether all numbers in a value are written as the grammar wants them. -/
def NumbersValid : Json → Prop
  | .num literal => Grammar.Number literal.toList
  | .arr items => ItemsValid items
  | .obj members => MembersValid members
  | .null | .bool _ | .str _ => True

/-- Whether all numbers in items are written as the grammar wants them. -/
def ItemsValid : List Json → Prop
  | [] => True
  | x :: xs => x.NumbersValid ∧ ItemsValid xs

/-- Whether all numbers in members are written as the grammar wants them. -/
def MembersValid : List (String × Json) → Prop
  | [] => True
  | (_, x) :: rest => x.NumbersValid ∧ MembersValid rest

end

theorem valueOf_literal {literal : String} (h : Grammar.Number literal.toList) (rest : List Char) :
    ValueOf (literal.toList ++ rest) (.num literal) rest := by
  have hnum : ValueOf (literal.toList ++ rest) (.num (String.ofList literal.toList)) rest := .num h
  rwa [String.ofList_toList] at hnum

/-! ## The compact layout -/

theorem ws_nil : Ws [] :=
  fun _ h => (List.not_mem_nil h).elim

mutual

theorem valueOf_compactChars : ∀ (x : Json), x.NumbersValid → ∀ rest : List Char,
    ValueOf (compactChars x ++ rest) x rest
  | .null, _, _ => .null
  | .bool true, _, _ => .true
  | .bool false, _, _ => .false
  | .num _, h, rest => valueOf_literal h rest
  | .str s, _, rest => valueOf_quote s rest
  | .arr [], _, _ => .emptyArr .nil
  | .arr (x :: xs), ⟨hx, hxs⟩, rest => by
    have hitems := itemsOf_compactItems xs hxs (valueOf_compactChars x hx) rest
    rw [compactChars, List.cons_append, List.append_assoc]
    exact .arr .nil hitems
  | .obj [], _, _ => .emptyObj .nil
  | .obj ((key, x) :: ms), ⟨hx, hms⟩, rest => by
    have hmember := memberOf_quote key ws_nil (valueOf_compactChars x hx)
    have hmembers := membersOf_compactMembers ms hms hmember rest
    simp only [compactChars, List.cons_append, List.append_assoc, List.nil_append] at hmembers ⊢
    exact .obj .nil hmembers

theorem itemsOf_compactItems : ∀ (xs : List Json), ItemsValid xs → ∀ {cs : List Char} {x : Json},
    (∀ rest, ValueOf (cs ++ rest) x rest) →
      ∀ rest : List Char, ItemsOf (cs ++ (compactItems xs ++ rest)) (x :: xs) rest
  | [], _, _, _, h, _ => .last (h _) .nil
  | x :: xs, ⟨hx, hxs⟩, _, _, h, rest => by
    have hitems := itemsOf_compactItems xs hxs (valueOf_compactChars x hx) rest
    rw [compactItems, List.cons_append, List.append_assoc]
    exact .cons (h _) .nil .nil hitems

theorem membersOf_compactMembers : ∀ (ms : List (String × Json)), MembersValid ms →
    ∀ {cs : List Char} {m : String × Json}, (∀ rest, MemberOf (cs ++ rest) m rest) →
      ∀ rest : List Char, MembersOf (cs ++ (compactMembers ms ++ rest)) (m :: ms) rest
  | [], _, _, _, h, _ => .last (h _) .nil
  | (key, x) :: ms, ⟨hx, hms⟩, _, _, h, rest => by
    have hmember := memberOf_quote key ws_nil (valueOf_compactChars x hx)
    have hmembers := membersOf_compactMembers ms hms hmember rest
    simp only [compactMembers, List.cons_append, List.append_assoc, List.nil_append] at hmembers ⊢
    exact .cons (h _) .nil .nil hmembers

end

/-! ## The indented layout -/

theorem ws_newline (depth : Nat) : Ws (newline depth) := by
  intro c hc
  rcases List.mem_cons.1 hc with rfl | hc
  · exact Or.inr (Or.inr (Or.inl rfl))
  · exact Or.inl (List.eq_of_mem_replicate hc)

theorem blanks_newline (depth : Nat) (rest : List Char) : Blanks (newline depth ++ rest) rest :=
  .of_ws (ws_newline depth) rest

theorem ws_space : Ws [' '] := by
  intro c hc
  exact Or.inl (List.mem_singleton.1 hc)

mutual

theorem valueOf_prettyChars : ∀ (depth : Nat) (x : Json), x.NumbersValid → ∀ rest : List Char,
    ValueOf (prettyChars depth x ++ rest) x rest
  | _, .null, _, _ => .null
  | _, .bool true, _, _ => .true
  | _, .bool false, _, _ => .false
  | _, .num _, h, rest => valueOf_literal h rest
  | _, .str s, _, rest => valueOf_quote s rest
  | _, .arr [], _, _ => .emptyArr .nil
  | depth, .arr (x :: xs), ⟨hx, hxs⟩, rest => by
    have hitems := itemsOf_prettyItems depth xs hxs (valueOf_prettyChars (depth + 1) x hx) rest
    simp only [prettyChars, List.cons_append, List.append_assoc]
    exact .arr (blanks_newline _ _) hitems
  | _, .obj [], _, _ => .emptyObj .nil
  | depth, .obj ((key, x) :: ms), ⟨hx, hms⟩, rest => by
    have hmember := memberOf_quote key ws_space (valueOf_prettyChars (depth + 1) x hx)
    have hmembers := membersOf_prettyMembers depth ms hms hmember rest
    simp only [prettyChars, List.cons_append, List.append_assoc, List.nil_append] at hmembers ⊢
    exact .obj (blanks_newline _ _) hmembers

theorem itemsOf_prettyItems : ∀ (depth : Nat) (xs : List Json), ItemsValid xs →
    ∀ {cs : List Char} {x : Json}, (∀ rest, ValueOf (cs ++ rest) x rest) →
      ∀ rest : List Char, ItemsOf (cs ++ (prettyItems depth xs ++ rest)) (x :: xs) rest
  | depth, [], _, _, _, h, rest => by
    rw [prettyItems, List.append_assoc]
    exact .last (h _) (blanks_newline _ _)
  | depth, x :: xs, ⟨hx, hxs⟩, _, _, h, rest => by
    have hitems := itemsOf_prettyItems depth xs hxs (valueOf_prettyChars (depth + 1) x hx) rest
    simp only [prettyItems, List.cons_append, List.append_assoc]
    exact .cons (h _) .nil (blanks_newline _ _) hitems

theorem membersOf_prettyMembers : ∀ (depth : Nat) (ms : List (String × Json)), MembersValid ms →
    ∀ {cs : List Char} {m : String × Json}, (∀ rest, MemberOf (cs ++ rest) m rest) →
      ∀ rest : List Char, MembersOf (cs ++ (prettyMembers depth ms ++ rest)) (m :: ms) rest
  | depth, [], _, _, _, h, rest => by
    rw [prettyMembers, List.append_assoc]
    exact .last (h _) (blanks_newline _ _)
  | depth, (key, x) :: ms, ⟨hx, hms⟩, _, _, h, rest => by
    have hmember := memberOf_quote key ws_space (valueOf_prettyChars (depth + 1) x hx)
    have hmembers := membersOf_prettyMembers depth ms hms hmember rest
    simp only [prettyMembers, List.cons_append, List.append_assoc, List.nil_append] at hmembers ⊢
    exact .cons (h _) .nil (blanks_newline _ _) hmembers

end

/-! ## Whole texts -/

theorem textOf_compact {x : Json} (h : x.NumbersValid) : TextOf x.compact.toList x := by
  have hx := valueOf_compactChars x h []
  rw [List.append_nil] at hx
  rw [compact, String.toList_ofList]
  exact .mk .nil hx .nil

theorem textOf_pretty {x : Json} (h : x.NumbersValid) : TextOf x.pretty.toList x := by
  have hx := valueOf_prettyChars 0 x h []
  rw [List.append_nil] at hx
  rw [pretty, String.toList_ofList]
  exact .mk .nil hx .nil

theorem read_compact {x : Json} (h : x.NumbersValid) : read x.compact = some x :=
  read_eq_some_iff.2 (textOf_compact h)

theorem read_pretty {x : Json} (h : x.NumbersValid) : read x.pretty = some x :=
  read_eq_some_iff.2 (textOf_pretty h)

theorem compact_inj {x y : Json} (hx : x.NumbersValid) (hy : y.NumbersValid)
    (h : x.compact = y.compact) : x = y := by
  have hread := read_compact hx
  rw [h, read_compact hy] at hread
  exact (Option.some.inj hread).symm

theorem pretty_inj {x y : Json} (hx : x.NumbersValid) (hy : y.NumbersValid)
    (h : x.pretty = y.pretty) : x = y := by
  have hread := read_pretty hx
  rw [h, read_pretty hy] at hread
  exact (Option.some.inj hread).symm

end PhpTree.Json
