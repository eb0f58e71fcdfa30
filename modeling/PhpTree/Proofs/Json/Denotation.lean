import PhpTree.Json.Basic
import PhpTree.Proofs.Json.Grammar

/-!
# What JSON texts stand for

`TextOf cs x` says that the text `cs` stands for the JSON value `x`. The relations take the
characters from where a piece starts and the characters behind it, and follow the grammar: every
text that stands for a value is derivable (`TextOf.derivable`). Members stand in the order of the
text. Of the texts of the grammar only those with half of a surrogate pair stand for nothing.
-/

namespace PhpTree.Json

open Grammar (Ws IsBlank HexDigit Structural)

/-! ## Blanks -/

/-- Some blanks lead from `cs` to `rest`. -/
inductive Blanks : List Char → List Char → Prop
  | nil {rest : List Char} : Blanks rest rest
  | cons {c : Char} {cs rest : List Char} : IsBlank c → Blanks cs rest → Blanks (c :: cs) rest

namespace Blanks

theorem exists_ws {cs rest : List Char} (h : Blanks cs rest) : ∃ ws, Ws ws ∧ cs = ws ++ rest := by
  induction h with
  | nil => exact ⟨[], fun _ hc => (List.not_mem_nil hc).elim, rfl⟩
  | @cons c cs rest hc _ ih =>
    obtain ⟨ws, hws, rfl⟩ := ih
    refine ⟨c :: ws, fun d hd => ?_, rfl⟩
    rcases List.mem_cons.1 hd with rfl | hd
    · exact hc
    · exact hws d hd

theorem of_ws {ws : List Char} (h : Ws ws) (rest : List Char) : Blanks (ws ++ rest) rest := by
  induction ws with
  | nil => exact .nil
  | cons c ws ih =>
    exact .cons (h c List.mem_cons_self) (ih fun d hd => h d (List.mem_cons_of_mem c hd))

theorem exists_structural {c : Char} {cs ds rest : List Char} (h : Blanks cs (c :: ds))
    (h' : Blanks ds rest) : ∃ token, Structural c token ∧ cs = token ++ rest := by
  obtain ⟨before, hbefore, rfl⟩ := h.exists_ws
  obtain ⟨after, hafter, rfl⟩ := h'.exists_ws
  exact ⟨before ++ c :: after, ⟨before, after, hbefore, hafter, rfl⟩, by simp⟩

end Blanks

/-! ## Characters -/

/-- The value of a digit in hexadecimal, in either case. -/
def hexValue? (c : Char) : Option Nat :=
  if c.isDigit then some (c.toNat - '0'.toNat)
  else if 'A' ≤ c ∧ c ≤ 'F' then some (c.toNat - 'A'.toNat + 10)
  else if 'a' ≤ c ∧ c ≤ 'f' then some (c.toNat - 'a'.toNat + 10)
  else none

/-- The character that a letter behind a backslash stands for. -/
def letterMeaning? : Char → Option Char
  | '"' => some '"'
  | '\\' => some '\\'
  | '/' => some '/'
  | 'b' => some '\x08'
  | 'f' => some '\x0c'
  | 'n' => some '\n'
  | 'r' => some '\r'
  | 't' => some '\t'
  | _ => none

/-- Whether a code is the first half of a surrogate pair. -/
def IsHighSurrogate (n : Nat) : Prop :=
  0xd800 ≤ n ∧ n < 0xdc00

/-- Whether a code is the second half of a surrogate pair. -/
def IsLowSurrogate (n : Nat) : Prop :=
  0xdc00 ≤ n ∧ n < 0xe000

instance (n : Nat) : Decidable (IsHighSurrogate n) :=
  inferInstanceAs (Decidable (_ ∧ _))

instance (n : Nat) : Decidable (IsLowSurrogate n) :=
  inferInstanceAs (Decidable (_ ∧ _))

/-- The code point of a surrogate pair. -/
def combineSurrogates (high low : Nat) : Nat :=
  0x10000 + (high - 0xd800) * 0x400 + (low - 0xdc00)

/-- Four digits in hexadecimal and their value. -/
inductive Hex4 : List Char → Nat → List Char → Prop
  | mk {a b c d : Char} {i j k l : Nat} {rest : List Char} : hexValue? a = some i →
      hexValue? b = some j → hexValue? c = some k → hexValue? d = some l →
      Hex4 (a :: b :: c :: d :: rest) (((i * 16 + j) * 16 + k) * 16 + l) rest

/-- The form of one character in a string. -/
inductive CharOf : List Char → Char → List Char → Prop
  | unescaped {c : Char} {rest : List Char} : Grammar.Unescaped c → CharOf (c :: rest) c rest
  | letter {l c : Char} {rest : List Char} : letterMeaning? l = some c →
      CharOf ('\\' :: l :: rest) c rest
  | code {cs rest : List Char} {n : Nat} : Hex4 cs n rest → ¬ IsHighSurrogate n →
      ¬ IsLowSurrogate n → CharOf ('\\' :: 'u' :: cs) (Char.ofNat n) rest
  | pair {cs ds rest : List Char} {high low : Nat} : Hex4 cs high ('\\' :: 'u' :: ds) →
      IsHighSurrogate high → Hex4 ds low rest → IsLowSurrogate low →
      CharOf ('\\' :: 'u' :: cs) (Char.ofNat (combineSurrogates high low)) rest

/-- The characters of a string, up to and with the quotation mark behind them. -/
inductive CharsOf : List Char → List Char → List Char → Prop
  | close {rest : List Char} : CharsOf ('"' :: rest) [] rest
  | cons {cs ds s rest : List Char} {c : Char} : CharOf cs c ds → CharsOf ds s rest →
      CharsOf cs (c :: s) rest

/-! ## Values -/

mutual

/-- The text of a value. -/
inductive ValueOf : List Char → Json → List Char → Prop
  | null {rest : List Char} : ValueOf ('n' :: 'u' :: 'l' :: 'l' :: rest) .null rest
  | true {rest : List Char} : ValueOf ('t' :: 'r' :: 'u' :: 'e' :: rest) (.bool Bool.true) rest
  | false {rest : List Char} :
      ValueOf ('f' :: 'a' :: 'l' :: 's' :: 'e' :: rest) (.bool Bool.false) rest
  | num {literal rest : List Char} : Grammar.Number literal →
      ValueOf (literal ++ rest) (.num (String.ofList literal)) rest
  | str {cs s rest : List Char} : CharsOf cs s rest →
      ValueOf ('"' :: cs) (.str (String.ofList s)) rest
  | emptyArr {cs rest : List Char} : Blanks cs (']' :: rest) → ValueOf ('[' :: cs) (.arr []) rest
  | arr {cs ds rest : List Char} {xs : List Json} : Blanks cs ds → ItemsOf ds xs rest →
      ValueOf ('[' :: cs) (.arr xs) rest
  | emptyObj {cs rest : List Char} : Blanks cs ('\x7d' :: rest) →
      ValueOf ('\x7b' :: cs) (.obj []) rest
  | obj {cs ds rest : List Char} {ms : List (String × Json)} : Blanks cs ds →
      MembersOf ds ms rest → ValueOf ('\x7b' :: cs) (.obj ms) rest

/-- The text of at least one item, up to and with the bracket behind them. -/
inductive ItemsOf : List Char → List Json → List Char → Prop
  | last {cs ds rest : List Char} {x : Json} : ValueOf cs x ds → Blanks ds (']' :: rest) →
      ItemsOf cs [x] rest
  | cons {cs ds es fs rest : List Char} {x : Json} {xs : List Json} : ValueOf cs x ds →
      Blanks ds (',' :: es) → Blanks es fs → ItemsOf fs xs rest → ItemsOf cs (x :: xs) rest

/-- The text of a member. -/
inductive MemberOf : List Char → String × Json → List Char → Prop
  | mk {cs ds es fs key rest : List Char} {x : Json} : CharsOf cs key ds →
      Blanks ds (':' :: es) → Blanks es fs → ValueOf fs x rest →
      MemberOf ('"' :: cs) (String.ofList key, x) rest

/-- The text of at least one member, up to and with the brace behind them. -/
inductive MembersOf : List Char → List (String × Json) → List Char → Prop
  | last {cs ds rest : List Char} {m : String × Json} : MemberOf cs m ds →
      Blanks ds ('\x7d' :: rest) → MembersOf cs [m] rest
  | cons {cs ds es fs rest : List Char} {m : String × Json} {ms : List (String × Json)} :
      MemberOf cs m ds → Blanks ds (',' :: es) → Blanks es fs → MembersOf fs ms rest →
      MembersOf cs (m :: ms) rest

end

/-- The whole text `cs` stands for the value `x`. -/
inductive TextOf : List Char → Json → Prop
  | mk {cs ds es : List Char} {x : Json} : Blanks cs ds → ValueOf ds x es → Blanks es [] →
      TextOf cs x

/-! ## Derivations -/

theorem hexDigit_of_hexValue? {c : Char} {n : Nat} (h : hexValue? c = some n) : HexDigit c := by
  unfold hexValue? at h
  split at h
  · next hc => exact Or.inl hc
  · split at h
    · next hc => exact Or.inr (Or.inl hc)
    · split at h
      · next hc => exact Or.inr (Or.inr hc)
      · cases h

theorem mem_of_letterMeaning? {l c : Char} (h : letterMeaning? l = some c) :
    l ∈ ['"', '\\', '/', 'b', 'f', 'n', 'r', 't'] := by
  unfold letterMeaning? at h
  split at h
  case h_9 => cases h
  all_goals simp

theorem Hex4.exists_digits {cs rest : List Char} {n : Nat} (h : Hex4 cs n rest) :
    ∃ a b c d, HexDigit a ∧ HexDigit b ∧ HexDigit c ∧ HexDigit d ∧
      cs = a :: b :: c :: d :: rest := by
  obtain ⟨ha, hb, hc, hd⟩ := h
  exact ⟨_, _, _, _, hexDigit_of_hexValue? ha, hexDigit_of_hexValue? hb, hexDigit_of_hexValue? hc,
    hexDigit_of_hexValue? hd, rfl⟩

/-- The form of a character is one `char` of the grammar, or two of them for a surrogate pair. -/
theorem CharOf.derivable {cs rest : List Char} {c : Char} (h : CharOf cs c rest) {ds : List Char}
    (hds : Grammar.StringChars ds) :
    ∃ used, cs = used ++ rest ∧ Grammar.StringChars (used ++ ds) := by
  cases h with
  | unescaped hc => exact ⟨[c], rfl, .cons (.unescaped hc) hds⟩
  | @letter l _ _ hl => exact ⟨['\\', l], rfl, .cons (.letter (mem_of_letterMeaning? hl)) hds⟩
  | code hn _ _ =>
    obtain ⟨a, b, c, d, ha, hb, hc, hd, rfl⟩ := hn.exists_digits
    exact ⟨['\\', 'u', a, b, c, d], rfl, .cons (.code ha hb hc hd) hds⟩
  | pair hhigh _ hlow _ =>
    obtain ⟨a, b, c, d, ha, hb, hc, hd, rfl⟩ := hhigh.exists_digits
    obtain ⟨a', b', c', d', ha', hb', hc', hd', rfl⟩ := hlow.exists_digits
    have hpair : Grammar.StringChars
        (['\\', 'u', a, b, c, d] ++ (['\\', 'u', a', b', c', d'] ++ ds)) :=
      .cons (.code ha hb hc hd) (.cons (.code ha' hb' hc' hd') hds)
    exact ⟨['\\', 'u', a, b, c, d, '\\', 'u', a', b', c', d'], rfl, hpair⟩

theorem CharsOf.derivable {cs s rest : List Char} (h : CharsOf cs s rest) :
    ∃ used, cs = used ++ '"' :: rest ∧ Grammar.StringChars used := by
  induction h with
  | close => exact ⟨[], rfl, .nil⟩
  | cons hc _ ih =>
    obtain ⟨tail, rfl, htail⟩ := ih
    obtain ⟨used, rfl, hused⟩ := hc.derivable htail
    exact ⟨used ++ tail, by simp, hused⟩

theorem CharsOf.derivable_literal {cs s rest : List Char} (h : CharsOf cs s rest) :
    ∃ used, '"' :: cs = used ++ rest ∧ Grammar.StringLiteral used := by
  obtain ⟨used, rfl, hused⟩ := h.derivable
  exact ⟨'"' :: (used ++ ['"']), by simp, .mk hused⟩

mutual

theorem ValueOf.derivable : ∀ {cs rest : List Char} {x : Json}, ValueOf cs x rest →
    ∃ used, cs = used ++ rest ∧ Grammar.Value used
  | _, _, _, .null => ⟨_, rfl, .null⟩
  | _, _, _, .true => ⟨_, rfl, .true⟩
  | _, _, _, .false => ⟨_, rfl, .false⟩
  | _, _, _, .num h => ⟨_, rfl, .number h⟩
  | _, _, _, .str h => by
    obtain ⟨used, he, hused⟩ := h.derivable_literal
    exact ⟨used, he, .string hused⟩
  | _, _, _, .emptyArr h => by
    obtain ⟨stop, hstop, rfl⟩ := h.exists_structural .nil
    exact ⟨_, by simp, .emptyArray ⟨[], [], by simp [Ws], by simp [Ws], rfl⟩ hstop⟩
  | _, _, _, .arr hb hxs => by
    obtain ⟨start, hstart, he⟩ := Blanks.exists_structural .nil hb
    obtain ⟨used, stop, rfl, hused, hstop⟩ := hxs.derivable
    exact ⟨start ++ used ++ stop, by simp [he], .array hstart hused hstop⟩
  | _, _, _, .emptyObj h => by
    obtain ⟨stop, hstop, rfl⟩ := h.exists_structural .nil
    exact ⟨_, by simp, .emptyObject ⟨[], [], by simp [Ws], by simp [Ws], rfl⟩ hstop⟩
  | _, _, _, .obj hb hms => by
    obtain ⟨start, hstart, he⟩ := Blanks.exists_structural .nil hb
    obtain ⟨used, stop, rfl, hused, hstop⟩ := hms.derivable
    exact ⟨start ++ used ++ stop, by simp [he], .object hstart hused hstop⟩

theorem ItemsOf.derivable : ∀ {cs rest : List Char} {xs : List Json}, ItemsOf cs xs rest →
    ∃ used stop, cs = used ++ (stop ++ rest) ∧ Grammar.Values used ∧ Structural ']' stop
  | _, _, _, .last hx hb => by
    obtain ⟨used, rfl, hused⟩ := hx.derivable
    obtain ⟨stop, hstop, rfl⟩ := hb.exists_structural .nil
    exact ⟨used, stop, rfl, .one hused, hstop⟩
  | _, _, _, .cons hx hb hb' hxs => by
    obtain ⟨used, rfl, hused⟩ := hx.derivable
    obtain ⟨comma, hcomma, rfl⟩ := hb.exists_structural hb'
    obtain ⟨tail, stop, rfl, htail, hstop⟩ := hxs.derivable
    exact ⟨used ++ comma ++ tail, stop, by simp, .cons hused hcomma htail, hstop⟩

theorem MemberOf.derivable : ∀ {cs rest : List Char} {m : String × Json}, MemberOf cs m rest →
    ∃ used, cs = used ++ rest ∧ Grammar.Member used
  | _, _, _, .mk hkey hb hb' hx => by
    obtain ⟨key, he, hliteral⟩ := hkey.derivable_literal
    obtain ⟨colon, hcolon, rfl⟩ := hb.exists_structural hb'
    obtain ⟨used, rfl, hused⟩ := hx.derivable
    exact ⟨key ++ colon ++ used, by simp [he], .mk hliteral hcolon hused⟩

theorem MembersOf.derivable : ∀ {cs rest : List Char} {ms : List (String × Json)},
    MembersOf cs ms rest →
      ∃ used stop, cs = used ++ (stop ++ rest) ∧ Grammar.Members used ∧ Structural '\x7d' stop
  | _, _, _, .last hm hb => by
    obtain ⟨used, rfl, hused⟩ := hm.derivable
    obtain ⟨stop, hstop, rfl⟩ := hb.exists_structural .nil
    exact ⟨used, stop, rfl, .one hused, hstop⟩
  | _, _, _, .cons hm hb hb' hms => by
    obtain ⟨used, rfl, hused⟩ := hm.derivable
    obtain ⟨comma, hcomma, rfl⟩ := hb.exists_structural hb'
    obtain ⟨tail, stop, rfl, htail, hstop⟩ := hms.derivable
    exact ⟨used ++ comma ++ tail, stop, by simp, .cons hused hcomma htail, hstop⟩

end

/-- A text that stands for a value is derivable. -/
theorem TextOf.derivable {cs : List Char} {x : Json} (h : TextOf cs x) : Grammar.Text cs := by
  obtain ⟨hbefore, hx, hafter⟩ := h
  obtain ⟨before, hws, rfl⟩ := hbefore.exists_ws
  obtain ⟨used, rfl, hused⟩ := hx.derivable
  obtain ⟨after, hws', rfl⟩ := hafter.exists_ws
  rw [List.append_nil, ← List.append_assoc]
  exact .mk hws hused hws'

end PhpTree.Json
