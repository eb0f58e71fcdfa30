import PhpTree.Proofs.Json.Reader

/-!
# Reading blanks, numbers and strings

Each of these is read exactly where it stands: what the reader takes is a piece of the grammar, and
a piece of the grammar is taken whole, a number if nothing behind it continues it.
-/

namespace PhpTree.Json

open Grammar (IsBlank)

/-! ## Blanks -/

theorem blanks_skipBlanks (cs : List Char) : Blanks cs (skipBlanks cs) := by
  induction cs with
  | nil => exact .nil
  | cons c cs ih =>
    unfold skipBlanks
    rw [List.dropWhile_cons]
    split
    · next hc => exact .cons (of_decide_eq_true hc) ih
    · exact .nil

theorem skipBlanks_cons {c : Char} (h : ¬ IsBlank c) (cs : List Char) :
    skipBlanks (c :: cs) = c :: cs := by
  unfold skipBlanks
  rw [List.dropWhile_cons, if_neg (by simpa using h)]

theorem Blanks.skipBlanks_eq {cs rest : List Char} (h : Blanks cs rest) :
    skipBlanks cs = skipBlanks rest := by
  induction h with
  | nil => rfl
  | cons hc _ ih =>
    rw [← ih]
    unfold skipBlanks
    rw [List.dropWhile_cons, if_pos (decide_eq_true hc)]

theorem Blanks.length_le {cs rest : List Char} (h : Blanks cs rest) :
    rest.length ≤ cs.length := by
  obtain ⟨ws, -, rfl⟩ := h.exists_ws
  rw [List.length_append]
  exact Nat.le_add_left _ _

/-- Blanks in front of a character that is none are skipped up to this character. -/
theorem Blanks.skipBlanks_cons {c : Char} {cs rest : List Char} (h : Blanks cs (c :: rest))
    (hc : ¬ IsBlank c) : skipBlanks cs = c :: rest :=
  h.skipBlanks_eq.trans (Json.skipBlanks_cons hc rest)

/-! ## Numbers -/

/-- What can stand behind a number: nothing that continues it. -/
def NumberEnds (rest : List Char) : Prop :=
  ∀ c ∈ rest.head?, c.isDigit = false ∧ c ≠ '.' ∧ c ≠ 'e' ∧ c ≠ 'E'

theorem Blanks.numberEnds {c : Char} {cs rest : List Char} (h : Blanks cs (c :: rest))
    (hc : c ∈ [',', ']', '\x7d']) : NumberEnds cs := by
  have hends : ∀ d : Char, IsBlank d ∨ d ∈ [',', ']', '\x7d'] →
      d.isDigit = false ∧ d ≠ '.' ∧ d ≠ 'e' ∧ d ≠ 'E' := by
    intro d hd
    simp only [IsBlank, List.mem_cons, List.not_mem_nil, or_false] at hd
    rcases hd with (rfl | rfl | rfl | rfl) | rfl | rfl | rfl <;> decide
  cases h with
  | nil =>
    rintro d ⟨⟩
    exact hends c (Or.inr hc)
  | cons hb _ =>
    rintro d ⟨⟩
    exact hends _ (Or.inl hb)

open Grammar (Digits Optional Minus IntPart Sign FracPart ExpPart Number)

theorem skipDigits_sound {cs rest : List Char} (h : skipDigits cs = some rest) :
    ∃ d ds, d.isDigit = true ∧ Digits ds ∧ cs = d :: (ds ++ rest) := by
  unfold skipDigits at h
  split at h
  · next d cs =>
    split at h
    · next hd =>
      cases h
      exact ⟨d, cs.takeWhile Char.isDigit, hd, fun c hc => List.all_eq_true.1 List.all_takeWhile c hc,
        by rw [List.takeWhile_append_dropWhile]⟩
    · cases h
  · cases h

theorem skipDigits_complete {d : Char} {ds rest : List Char} (hd : d.isDigit = true)
    (hds : Digits ds) (hrest : ∀ c ∈ rest.head?, c.isDigit = false) :
    skipDigits (d :: (ds ++ rest)) = some rest := by
  have hstop : rest.dropWhile Char.isDigit = rest := by
    cases rest with
    | nil => rfl
    | cons c rest => rw [List.dropWhile_cons, hrest c rfl, if_neg Bool.false_ne_true]
  rw [skipDigits, if_pos hd, List.dropWhile_append_of_pos hds, hstop]

theorem skipMinus_sound (cs : List Char) :
    ∃ used, cs = used ++ skipMinus cs ∧ Optional Minus used := by
  unfold skipMinus
  split
  · exact ⟨['-'], rfl, Or.inr rfl⟩
  · exact ⟨[], rfl, Or.inl rfl⟩

theorem skipSign_sound (cs : List Char) :
    ∃ used, cs = used ++ skipSign cs ∧ Optional Sign used := by
  unfold skipSign
  split
  · exact ⟨['-'], rfl, Or.inr (Or.inl rfl)⟩
  · exact ⟨['+'], rfl, Or.inr (Or.inr rfl)⟩
  · exact ⟨[], rfl, Or.inl rfl⟩

theorem skipInt_sound {cs rest : List Char} (h : skipInt cs = some rest) :
    ∃ used, cs = used ++ rest ∧ IntPart used := by
  unfold skipInt at h
  split at h
  · cases h
    exact ⟨['0'], rfl, .zero⟩
  · next hzero =>
    obtain ⟨d, ds, hd, hds, rfl⟩ := skipDigits_sound h
    exact ⟨d :: ds, rfl, .positive hd (fun he => hzero _ (by rw [he])) hds⟩

theorem skipFrac_sound {cs rest : List Char} (h : skipFrac cs = some rest) :
    ∃ used, cs = used ++ rest ∧ Optional FracPart used := by
  unfold skipFrac at h
  split at h
  · obtain ⟨d, ds, hd, hds, rfl⟩ := skipDigits_sound h
    exact ⟨'.' :: d :: ds, rfl, Or.inr (.mk hd hds)⟩
  · cases h
    exact ⟨[], rfl, Or.inl rfl⟩

theorem exists_expPart {e : Char} {cs rest : List Char} (he : e = 'e' ∨ e = 'E')
    (h : skipDigits (skipSign cs) = some rest) :
    ∃ used, e :: cs = used ++ rest ∧ ExpPart used := by
  obtain ⟨sign, hcs, hsign⟩ := skipSign_sound cs
  obtain ⟨d, ds, hd, hds, hrest⟩ := skipDigits_sound h
  rw [hrest] at hcs
  exact ⟨e :: (sign ++ d :: ds), by simp [hcs], .mk he hsign hd hds⟩

theorem skipExp_sound {cs rest : List Char} (h : skipExp cs = some rest) :
    ∃ used, cs = used ++ rest ∧ Optional ExpPart used := by
  unfold skipExp at h
  split at h
  · obtain ⟨used, he, hused⟩ := exists_expPart (Or.inl rfl) h
    exact ⟨used, he, Or.inr hused⟩
  · obtain ⟨used, he, hused⟩ := exists_expPart (Or.inr rfl) h
    exact ⟨used, he, Or.inr hused⟩
  · cases h
    exact ⟨[], rfl, Or.inl rfl⟩

/-- What is read as a number is a number of the grammar. -/
theorem readNumber_sound {cs literal rest : List Char}
    (h : readNumber cs = some (literal, rest)) : cs = literal ++ rest ∧ Number literal := by
  obtain ⟨rest', hskip, he⟩ := Option.map_eq_some_iff.1 h
  cases he
  obtain ⟨afterFrac, hbind, hexp⟩ := Option.bind_eq_some_iff.1 hskip
  obtain ⟨afterInt, hint, hfrac⟩ := Option.bind_eq_some_iff.1 hbind
  obtain ⟨minus, hcs, hminus⟩ := skipMinus_sound cs
  obtain ⟨int, hint, hint'⟩ := skipInt_sound hint
  obtain ⟨frac, rfl, hfrac'⟩ := skipFrac_sound hfrac
  obtain ⟨exp, rfl, hexp'⟩ := skipExp_sound hexp
  have hall : cs = (minus ++ int ++ frac ++ exp) ++ rest := by
    rw [hcs, hint]
    simp
  have htake : cs.take (cs.length - rest.length) = minus ++ int ++ frac ++ exp := by
    rw [hall, List.length_append, Nat.add_sub_cancel, List.take_left]
  rw [htake]
  exact ⟨hall, .mk hminus hint' hfrac' hexp'⟩

theorem skipExp_complete {exp rest : List Char} (h : Optional ExpPart exp) (hrest : NumberEnds rest) :
    skipExp (exp ++ rest) = some rest := by
  rcases h with rfl | ⟨he, hsign, hd, hds⟩
  · cases rest with
    | nil => rfl
    | cons c rest =>
      obtain ⟨-, -, he, hE⟩ := hrest c rfl
      rw [List.nil_append]
      unfold skipExp
      split
      · next h => exact absurd (List.cons.inj h).1 he
      · next h => exact absurd (List.cons.inj h).1 hE
      · rfl
  · next e d sign ds =>
    have hskip : skipSign (sign ++ d :: (ds ++ rest)) = d :: (ds ++ rest) := by
      rcases hsign with rfl | rfl | rfl
      · rw [List.nil_append]
        unfold skipSign
        split
        · next h =>
          rw [(List.cons.inj h).1] at hd
          exact absurd hd (by decide)
        · next h =>
          rw [(List.cons.inj h).1] at hd
          exact absurd hd (by decide)
        · rfl
      · rfl
      · rfl
    have hdigits := skipDigits_complete hd hds fun c hc => (hrest c hc).1
    rw [List.cons_append, List.append_assoc, List.cons_append]
    rcases he with rfl | rfl
    · rw [skipExp, hskip, hdigits]
    · rw [skipExp, hskip, hdigits]

theorem skipFrac_complete {frac rest : List Char} (h : Optional FracPart frac)
    (hrest : ∀ c ∈ rest.head?, c.isDigit = false ∧ c ≠ '.') :
    skipFrac (frac ++ rest) = some rest := by
  rcases h with rfl | ⟨hd, hds⟩
  · rw [List.nil_append]
    unfold skipFrac
    split
    · exact absurd rfl (hrest '.' rfl).2
    · rfl
  · exact skipDigits_complete hd hds fun c hc => (hrest c hc).1

theorem skipInt_complete {int rest : List Char} (h : IntPart int)
    (hrest : ∀ c ∈ rest.head?, c.isDigit = false) : skipInt (int ++ rest) = some rest := by
  rcases h with _ | ⟨hd, hne, hds⟩
  · rfl
  · rw [List.cons_append]
    unfold skipInt
    split
    · next h => exact absurd (List.cons.inj h).1 hne
    · exact skipDigits_complete hd hds hrest

theorem IntPart.exists_head {int : List Char} (h : IntPart int) :
    ∃ d ds, int = d :: ds ∧ d.isDigit = true := by
  rcases h with _ | ⟨hd, -, -⟩
  · exact ⟨'0', [], rfl, by decide⟩
  · exact ⟨_, _, rfl, hd⟩

theorem skipMinus_complete {minus int : List Char} (h : Optional Minus minus) (hint : IntPart int)
    (rest : List Char) : skipMinus (minus ++ (int ++ rest)) = int ++ rest := by
  obtain ⟨d, ds, rfl, hd⟩ := IntPart.exists_head hint
  rcases h with rfl | rfl
  · rw [List.nil_append, List.cons_append]
    unfold skipMinus
    split
    · next h =>
      rw [(List.cons.inj h).1] at hd
      exact absurd hd (by decide)
    · rfl
  · rfl

theorem head_fracPart_append {frac rest : List Char} (h : Optional FracPart frac)
    (hrest : ∀ c ∈ rest.head?, c.isDigit = false) :
    ∀ c ∈ (frac ++ rest).head?, c.isDigit = false := by
  rcases h with rfl | ⟨-, -⟩
  · exact hrest
  · rintro c ⟨⟩
    decide

theorem head_expPart_append {exp rest : List Char} (h : Optional ExpPart exp)
    (hrest : NumberEnds rest) : ∀ c ∈ (exp ++ rest).head?, c.isDigit = false ∧ c ≠ '.' := by
  rcases h with rfl | ⟨he, -, -, -⟩
  · exact fun c hc => ⟨(hrest c hc).1, (hrest c hc).2.1⟩
  · rintro c ⟨⟩
    rcases he with rfl | rfl <;> decide

/-- A number of the grammar is read where nothing continues it. -/
theorem readNumber_complete {literal rest : List Char} (h : Number literal)
    (hrest : NumberEnds rest) : readNumber (literal ++ rest) = some (literal, rest) := by
  obtain ⟨hminus, hint, hfrac, hexp⟩ := h
  next minus int frac exp =>
  have hskip : skipNumber (minus ++ (int ++ (frac ++ (exp ++ rest)))) = some rest := by
    have hafter := head_expPart_append hexp hrest
    have hdigit := head_fracPart_append hfrac fun c hc => (hafter c hc).1
    rw [skipNumber, skipMinus_complete hminus hint, skipInt_complete hint hdigit, Option.bind_some,
      skipFrac_complete hfrac hafter, Option.bind_some, skipExp_complete hexp hrest]
  have hassoc : minus ++ int ++ frac ++ exp ++ rest =
      minus ++ (int ++ (frac ++ (exp ++ rest))) := by
    simp only [List.append_assoc]
  rw [readNumber, hassoc, hskip, ← hassoc, Option.map_some, List.length_append,
    Nat.add_sub_cancel, List.take_left]

theorem exists_head_of_number {literal : List Char} (h : Number literal) :
    ∃ c cs, literal = c :: cs ∧ (c = '-' ∨ c.isDigit = true) := by
  obtain ⟨hminus, hint, -, -⟩ := h
  obtain ⟨d, ds, rfl, hd⟩ := IntPart.exists_head hint
  rcases hminus with rfl | rfl
  · exact ⟨d, _, rfl, Or.inr hd⟩
  · exact ⟨'-', _, rfl, Or.inl rfl⟩

/-! ## Strings -/

theorem readHex4_eq_some_iff {cs rest : List Char} {n : Nat} :
    readHex4 cs = some (n, rest) ↔ Hex4 cs n rest := by
  constructor
  · intro h
    unfold readHex4 at h
    split at h
    · split at h
      · next hi hj hk hl =>
        cases h
        exact .mk hi hj hk hl
      · cases h
    · cases h
  · rintro ⟨hi, hj, hk, hl⟩
    simp only [readHex4, hi, hj, hk, hl]

theorem readCode_eq_some {cs rest : List Char} {c : Char} (h : readCode cs = some (c, rest)) :
    CharOf ('\\' :: 'u' :: cs) c rest := by
  unfold readCode at h
  split at h
  · next n ds hn =>
    rw [readHex4_eq_some_iff] at hn
    split at h
    · next hhigh =>
      unfold readLowSurrogate at h
      split at h
      · split at h
        · next low _ hlow =>
          rw [readHex4_eq_some_iff] at hlow
          split at h
          · next hlow' =>
            obtain ⟨rfl, rfl⟩ := Prod.mk.inj (Option.some.inj h)
            exact .pair hn hhigh hlow hlow'
          · cases h
        · cases h
      · cases h
    · next hhigh =>
      split at h
      · cases h
      · next hlow =>
        cases h
        exact .code hn hhigh hlow
  · cases h

/-- One character is read exactly from a form of it. -/
theorem readChar_eq_some_iff {cs rest : List Char} {c : Char} :
    readChar cs = some (c, rest) ↔ CharOf cs c rest := by
  constructor
  · intro h
    unfold readChar at h
    split at h
    · exact readCode_eq_some h
    · obtain ⟨c', hc', he⟩ := Option.map_eq_some_iff.1 h
      cases he
      exact .letter hc'
    · split at h
      · next hc =>
        cases h
        exact .unescaped hc
      · cases h
    · cases h
  · intro h
    cases h with
    | unescaped hc =>
      unfold readChar
      split
      · next h => exact absurd (List.cons.inj h).1 hc.2.2
      · next h => exact absurd (List.cons.inj h).1 hc.2.2
      · next h =>
        cases h
        rw [if_pos hc]
      · next h => cases h
    | @letter l _ _ hl =>
      unfold readChar
      split
      · next h =>
        cases h
        cases hl
      · next h =>
        cases h
        rw [hl, Option.map_some]
      · next hne h =>
        cases h
        exact (hne l _ rfl rfl).elim
      · next h => cases h
    | code hn hhigh hlow =>
      rw [readChar, readCode, readHex4_eq_some_iff.2 hn]
      simp only [if_neg hhigh, if_neg hlow]
    | pair hhigh hhigh' hlow hlow' =>
      rw [readChar, readCode, readHex4_eq_some_iff.2 hhigh]
      simp only [if_pos hhigh', readLowSurrogate, readHex4_eq_some_iff.2 hlow, if_pos hlow']

theorem CharOf.length_lt {cs rest : List Char} {c : Char} (h : CharOf cs c rest) :
    rest.length < cs.length := by
  cases h with
  | unescaped _ => exact Nat.lt_succ_self _
  | letter _ =>
    simp only [List.length_cons]
    omega
  | code hn _ _ =>
    obtain ⟨a, b, c, d, -, -, -, -, rfl⟩ := hn.exists_digits
    simp only [List.length_cons]
    omega
  | pair hhigh _ hlow _ =>
    obtain ⟨a, b, c, d, -, -, -, -, rfl⟩ := hhigh.exists_digits
    obtain ⟨a', b', c', d', -, -, -, -, rfl⟩ := hlow.exists_digits
    simp only [List.length_cons]
    omega

theorem CharOf.ne_quote {cs rest : List Char} {c : Char} (h : CharOf cs c rest) (ds : List Char) :
    cs ≠ '"' :: ds := by
  rintro rfl
  cases h with
  | unescaped hc => exact hc.2.1 rfl

theorem CharsOf.length_lt {cs s rest : List Char} (h : CharsOf cs s rest) :
    rest.length < cs.length := by
  induction h with
  | close => exact Nat.lt_succ_self _
  | cons hc _ ih => exact Nat.lt_trans ih hc.length_lt

theorem readChars_sound {fuel : Nat} {cs s rest : List Char}
    (h : readChars fuel cs = some (s, rest)) : CharsOf cs s rest := by
  induction fuel generalizing cs s rest with
  | zero => cases h
  | succ fuel ih =>
    unfold readChars at h
    split at h
    · cases h
      exact .close
    · split at h
      · next hc =>
        obtain ⟨r, hr, he⟩ := Option.map_eq_some_iff.1 h
        cases he
        exact .cons (readChar_eq_some_iff.1 hc) (ih hr)
      · cases h

theorem readChars_complete {fuel : Nat} {cs s rest : List Char} (h : CharsOf cs s rest)
    (hfuel : cs.length ≤ fuel) : readChars fuel cs = some (s, rest) := by
  induction h generalizing fuel with
  | close =>
    cases fuel with
    | zero => cases hfuel
    | succ fuel => rfl
  | @cons cs ds s rest c hc hs ih =>
    have hlt := hc.length_lt
    cases fuel with
    | zero => omega
    | succ fuel =>
      unfold readChars
      split
      · next ds' => exact absurd rfl (hc.ne_quote ds')
      · have hrec : readChars fuel ds = some (s, rest) := ih (by omega)
        simp only [readChar_eq_some_iff.2 hc, hrec, Option.map_some]

end PhpTree.Json
