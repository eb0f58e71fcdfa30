import PhpTree.Decimal.Notation
import PhpTree.Proofs.Decimal.Numerals
import PhpTree.Proofs.Decimal.Rounding
import PhpTree.Proofs.Json.Tokens

/-!
# Reading numbers back

The text of a number other than an integer is a number of the grammar with a point or an exponent.
The grammar splits a text into its parts in one way only, so that the text stands for one rational,
and this rational rounds to one number only: the text of a number determines its bits.
-/

namespace PhpTree

open Json.Grammar (Digits IntPart FracPart ExpPart Number Optional)

/-! ## Numerals -/

/-- The exponent written behind the letter. -/
def exponentValue : List Char → ℤ
  | '-' :: ds => -Nat.ofDigitChars 10 ds 0
  | '+' :: ds => Nat.ofDigitChars 10 ds 0
  | ds => Nat.ofDigitChars 10 ds 0

/-- The number that the parts of a numeral stand for. -/
def partsValue (int frac exp : List Char) : ℚ :=
  Nat.ofDigitChars 10 (int ++ frac.tail) 0 * 10 ^ (exponentValue exp.tail - frac.tail.length)

/-- A numeral without a sign and with a point or an exponent, and the number it stands for. -/
inductive Numeral : List Char → ℚ → Prop
  | mk {int frac exp : List Char} : IntPart int → Optional FracPart frac → Optional ExpPart exp →
      frac ≠ [] ∨ exp ≠ [] → Numeral (int ++ frac ++ exp) (partsValue int frac exp)

/-- A numeral with digits on both sides of a point. -/
theorem Numeral.plain {int ds : List Char} (hint : IntPart int) (hfrac : FracPart ('.' :: ds)) :
    Numeral (int ++ '.' :: ds) (Nat.ofDigitChars 10 (int ++ ds) 0 * 10 ^ (-(ds.length : ℤ))) := by
  have h := Numeral.mk hint (Or.inr hfrac) (Or.inl rfl) (Or.inl (List.cons_ne_nil _ _))
  have hexp : exponentValue [] = 0 := rfl
  rwa [List.append_nil, partsValue, List.tail_cons, List.tail_nil, hexp, zero_sub] at h

theorem numberEnds_nil : Json.NumberEnds [] :=
  fun _ hc => by cases hc

/-- A numeral stands for one number only: each part ends where the reader stops. -/
theorem Numeral.unique {cs : List Char} {r s : ℚ} (hr : Numeral cs r) (hs : Numeral cs s) :
    r = s := by
  have hstop : ∀ {exp : List Char}, Optional ExpPart exp →
      ∀ c ∈ exp.head?, c.isDigit = false ∧ c ≠ '.' := by
    intro exp hexp
    have hhead := Json.head_expPart_append hexp numberEnds_nil
    rwa [List.append_nil] at hhead
  obtain @⟨int, frac, exp, hint, hfrac, hexp, -⟩ := hr
  generalize hcs : int ++ frac ++ exp = cs at hs
  obtain @⟨int', frac', exp', hint', hfrac', hexp', -⟩ := hs
  rw [List.append_assoc, List.append_assoc] at hcs
  have hrest := Json.skipInt_complete hint
    (Json.head_fracPart_append hfrac fun c hc => (hstop hexp c hc).1)
  rw [hcs, Json.skipInt_complete hint'
    (Json.head_fracPart_append hfrac' fun c hc => (hstop hexp' c hc).1)] at hrest
  have hrest := Option.some.inj hrest
  rw [hrest] at hcs
  obtain rfl := List.append_cancel_right hcs
  have hlast := Json.skipFrac_complete hfrac (hstop hexp)
  rw [← hrest, Json.skipFrac_complete hfrac' (hstop hexp')] at hlast
  obtain rfl := Option.some.inj hlast
  obtain rfl := List.append_cancel_right hrest
  rfl

/-! ## The notation of decimals -/

namespace Decimal

variable {d : Decimal}

theorem exists_digitChars_eq_cons (h : 0 < d.digits) :
    ∃ c cs, d.digitChars = c :: cs ∧ c ≠ '0' ∧ Digits (c :: cs) := by
  obtain ⟨c, cs, hcs, hc⟩ := Json.exists_toDigits_eq_cons h
  exact ⟨c, cs, hcs, hc, hcs ▸ Json.digits_toDigits d.digits⟩

theorem ofDigitChars_digitChars (d : Decimal) : Nat.ofDigitChars 10 d.digitChars 0 = d.digits :=
  Nat.ofDigitChars_ten_toDigits

theorem numeral_integral (hpos : 0 < d.digits) (hexp : 0 ≤ d.exponent) :
    Numeral (d.digitChars ++ List.replicate d.exponent.toNat '0' ++ ['.', '0']) d.value := by
  obtain ⟨c, cs, hcs, hc, hdigits⟩ := exists_digitChars_eq_cons hpos
  have hint : IntPart (d.digitChars ++ List.replicate d.exponent.toNat '0') := by
    rw [hcs]
    exact Json.intPart_of_cons (Json.digits_append hdigits (Json.digits_replicate_zero _)) hc
  convert Numeral.plain hint Json.fracPart_zero using 1
  have hpow : (10 : ℚ) ^ d.exponent = 10 ^ d.exponent.toNat := by
    rw [← zpow_natCast, Int.toNat_of_nonneg hexp]
  have hzero : (['0'] : List Char) = List.replicate 1 '0' := rfl
  rw [hzero, Nat.ofDigitChars_append, Nat.ofDigitChars_append, ofDigitChars_digitChars,
    Nat.ofDigitChars_replicate_zero, Nat.ofDigitChars_replicate_zero, value, hpow,
    List.length_replicate, Nat.cast_one, zpow_neg_one]
  push_cast
  field_simp

theorem numeral_split (hpos : 0 < d.digits) {n : Nat} (hexp : d.exponent = -n) (hn : 0 < n)
    (hlen : n < d.digitChars.length) :
    Numeral (d.digitChars.take (d.digitChars.length - n) ++
      '.' :: d.digitChars.drop (d.digitChars.length - n)) d.value := by
  obtain ⟨c, cs, hcs, hc, hdigits⟩ := exists_digitChars_eq_cons hpos
  have hint : IntPart (d.digitChars.take (d.digitChars.length - n)) := by
    obtain ⟨k, hk⟩ : ∃ k, d.digitChars.length - n = k + 1 :=
      ⟨d.digitChars.length - n - 1, by omega⟩
    rw [hk, hcs, List.take_succ_cons]
    exact Json.intPart_of_cons
      (fun x hx => hdigits x (List.mem_of_mem_take (i := k + 1) hx)) hc
  have hplaces : (d.digitChars.drop (d.digitChars.length - n)).length = n := by
    rw [List.length_drop]
    omega
  have hfrac : FracPart ('.' :: d.digitChars.drop (d.digitChars.length - n)) := by
    refine Json.fracPart_of_ne_nil (fun hnil => ?_) fun x hx => ?_
    · rw [hnil] at hplaces
      exact absurd hplaces hn.ne
    · exact hdigits x (hcs ▸ List.mem_of_mem_drop hx)
  convert Numeral.plain hint hfrac using 1
  rw [List.take_append_drop, ofDigitChars_digitChars, hplaces, value, hexp]

theorem numeral_small (hpos : 0 < d.digits) {n : Nat} (hexp : d.exponent = -n)
    (hlen : d.digitChars.length ≤ n) :
    Numeral (['0', '.'] ++ List.replicate (n - d.digitChars.length) '0' ++ d.digitChars)
      d.value := by
  obtain ⟨c, cs, hcs, hc, hdigits⟩ := exists_digitChars_eq_cons hpos
  have hfrac : FracPart ('.' :: (List.replicate (n - d.digitChars.length) '0' ++ d.digitChars)) := by
    refine Json.fracPart_of_ne_nil (fun hnil => ?_) ?_
    · rw [hcs] at hnil
      exact List.cons_ne_nil _ _ (List.append_eq_nil_iff.1 hnil).2
    · exact Json.digits_append (Json.digits_replicate_zero _) (hcs ▸ hdigits)
  have hplaces : (List.replicate (n - d.digitChars.length) '0' ++ d.digitChars).length = n := by
    rw [List.length_append, List.length_replicate]
    omega
  have hzero : (['0'] : List Char) = List.replicate 1 '0' := rfl
  have h := Numeral.plain .zero hfrac
  rw [hplaces, hzero, Nat.ofDigitChars_append, Nat.ofDigitChars_append,
    Nat.ofDigitChars_replicate_zero, Nat.ofDigitChars_replicate_zero, mul_zero, mul_zero,
    ofDigitChars_digitChars, ← hexp] at h
  exact h

theorem exponentValue_written (e : ℤ) :
    exponentValue ((if e < 0 then '-' else '+') :: Nat.toDigits 10 e.natAbs) = e := by
  split
  · rw [exponentValue, Nat.ofDigitChars_ten_toDigits]
    omega
  · rw [exponentValue, Nat.ofDigitChars_ten_toDigits]
    omega

theorem expPart_written (e : ℤ) :
    ExpPart ('e' :: (if e < 0 then '-' else '+') :: Nat.toDigits 10 e.natAbs) := by
  have hdigits := Json.digits_toDigits e.natAbs
  cases hds : Nat.toDigits 10 e.natAbs with
  | nil => exact absurd hds Nat.toDigits_ne_nil
  | cons d ds =>
    rw [hds, Digits, List.forall_mem_cons] at hdigits
    have hsign : Optional Json.Grammar.Sign [if e < 0 then '-' else '+'] := by
      split
      · exact Or.inr (Or.inl rfl)
      · exact Or.inr (Or.inr rfl)
    exact ExpPart.mk (Or.inl rfl) hsign hdigits.1 hdigits.2

theorem numeral_scientific (hpos : 0 < d.digits) : Numeral d.scientificChars d.value := by
  obtain ⟨c, cs, hcs, hc, hdigits⟩ := exists_digitChars_eq_cons hpos
  have hlead : d.leadingExponent - cs.length = d.exponent := by
    rw [leadingExponent, hcs, List.length_cons]
    push_cast
    ring
  have hint : IntPart [c] :=
    Json.intPart_of_cons (fun x hx => hdigits x (List.mem_singleton.1 hx ▸ List.mem_cons_self)) hc
  obtain ⟨frac, hfrac, htail, hmantissa⟩ : ∃ frac, Optional FracPart frac ∧ frac.tail = cs ∧
      d.scientificChars = [c] ++ frac ++ 'e' :: (if d.leadingExponent < 0 then '-' else '+') ::
        Nat.toDigits 10 d.leadingExponent.natAbs := by
    unfold scientificChars
    rw [hcs]
    cases cs with
    | nil => exact ⟨[], Or.inl rfl, rfl, by simp⟩
    | cons x xs =>
      have hne : x :: xs ≠ [] := List.cons_ne_nil _ _
      refine ⟨'.' :: x :: xs, Or.inr (Json.fracPart_of_ne_nil hne ?_), rfl, by simp⟩
      exact fun y hy => hdigits y (List.mem_cons_of_mem c hy)
  have h := Numeral.mk hint hfrac (Or.inr (expPart_written d.leadingExponent))
    (Or.inr (List.cons_ne_nil _ _))
  rw [hmantissa]
  convert h using 1
  rw [partsValue, htail, List.tail_cons, exponentValue_written, hlead, List.singleton_append, ← hcs,
    ofDigitChars_digitChars, value]

/-- The text of a decimal is a numeral that stands for it. -/
theorem numeral_chars (hpos : 0 < d.digits) : Numeral d.chars d.value := by
  unfold chars
  split
  · unfold plainChars
    dsimp only
    split
    · next hexp => exact numeral_integral hpos hexp
    · next hexp =>
      have hplaces : d.exponent = -((-d.exponent).toNat : ℤ) := by omega
      split
      · next hlen => exact numeral_split hpos hplaces (by omega) hlen
      · next hlen => exact numeral_small hpos hplaces (Nat.le_of_not_lt hlen)
  · exact numeral_scientific hpos

end Decimal

/-! ## The text of a number -/

theorem Numeral.head_isDigit {cs : List Char} {r : ℚ} (h : Numeral cs r) :
    ∃ c rest, cs = c :: rest ∧ c.isDigit = true := by
  obtain ⟨hint, -, -, -⟩ := h
  obtain ⟨d, ds, rfl, hd⟩ := Json.IntPart.exists_head hint
  exact ⟨d, _, rfl, hd⟩

/-- A numeral has a point or the letter of an exponent. -/
theorem Numeral.exists_mark {cs : List Char} {r : ℚ} (h : Numeral cs r) :
    ∃ c ∈ cs, c = '.' ∨ c = 'e' ∨ c = 'E' := by
  obtain ⟨-, hfrac, hexp, hne⟩ := h
  rcases hfrac with rfl | ⟨-, -⟩
  · rcases hexp with rfl | ⟨he, -, -, -⟩
    · exact absurd rfl (hne.resolve_left (· rfl))
    · exact ⟨_, List.mem_append_right _ List.mem_cons_self, Or.inr he⟩
  · refine ⟨'.', ?_, Or.inl rfl⟩
    exact List.mem_append_left _ (List.mem_append_right _ List.mem_cons_self)

theorem Numeral.number {cs minus : List Char} {r : ℚ} (h : Numeral cs r)
    (hminus : minus = [] ∨ minus = ['-']) : Number (minus ++ cs) := by
  obtain ⟨hint, hfrac, hexp, -⟩ := h
  have hnum := Number.mk hminus hint hfrac hexp
  rwa [List.append_assoc minus, List.append_assoc minus] at hnum

namespace Binary64

theorem encloses_zero {x : Binary64} (h : x.isZero = true) : x.Encloses 0 := by
  simp only [isZero, Bool.and_eq_true, beq_iff_eq] at h
  have hsig : x.significand = 0 := by
    rw [significand, if_pos h.1, h.2]
  have hlow : x.lowEnd = 0 := by
    rw [lowEnd, hsig, mul_zero, Nat.zero_sub, zero_mul]
  have hhigh : 0 < (x.highEnd : ℚ) * quarter := by
    refine mul_pos ?_ quarter_pos
    exact_mod_cast Nat.mul_pos (by omega) (Nat.two_pow_pos _)
  refine ⟨Or.inr ⟨by rw [hsig], ?_⟩, Or.inl hhigh⟩
  rw [hlow, Nat.cast_zero, zero_mul]

/-- The text of a number is a numeral, behind a sign if it is negative, and the numeral stands for
something that rounds to the magnitude. -/
theorem exists_numeral_text (x : Binary64) :
    ∃ cs r, Numeral cs r ∧ x.Encloses r ∧
      x.text.toList = (if x.isNegative then ['-'] else []) ++ cs := by
  have hsign : ∀ cs : List Char, (if x.isNegative then '-' :: cs else cs) =
      (if x.isNegative then ['-'] else []) ++ cs := by
    intro cs
    split <;> rfl
  rw [text, String.toList_ofList, hsign]
  cases hzero : x.isZero with
  | true =>
    have hnum := Numeral.plain .zero Json.fracPart_zero
    have hdigits : Nat.ofDigitChars 10 (['0'] ++ ['0']) 0 = 0 := rfl
    rw [hdigits, Nat.cast_zero, zero_mul] at hnum
    exact ⟨_, 0, hnum, encloses_zero hzero, by rw [if_pos rfl]; rfl⟩
  | false =>
    have hencloses := encloses_shortest hzero
    have hpos : 0 < x.shortest.digits := by
      refine Nat.pos_of_ne_zero fun hdigits => ?_
      have hvalue := hencloses.pos hzero
      rw [Decimal.value, hdigits, Nat.cast_zero, zero_mul] at hvalue
      exact lt_irrefl _ hvalue
    exact ⟨_, _, Decimal.numeral_chars hpos, hencloses, by rw [if_neg Bool.false_ne_true]⟩

theorem number_text (x : Binary64) : Number x.text.toList := by
  obtain ⟨cs, r, hnum, -, htext⟩ := x.exists_numeral_text
  rw [htext]
  refine hnum.number ?_
  split
  · exact Or.inr rfl
  · exact Or.inl rfl

theorem text_ne_int (x : Binary64) (n : Int) : x.text ≠ toString n := by
  intro heq
  obtain ⟨cs, r, hnum, -, htext⟩ := x.exists_numeral_text
  obtain ⟨c, hc, hmark⟩ := hnum.exists_mark
  have hmem : c ∈ (toString n).toList := by
    rw [← heq, htext]
    exact List.mem_append_right _ hc
  rcases Json.minus_or_digit_of_mem_int hmem with rfl | hdigit
  · exact absurd hmark (by decide)
  · rcases hmark with rfl | rfl | rfl <;> exact absurd hdigit (by decide)

/-- The text of a number determines the number, the sign of a zero included. -/
theorem text_injective : Function.Injective text := by
  intro x y heq
  obtain ⟨cs, r, hcs, hx, hxtext⟩ := x.exists_numeral_text
  obtain ⟨ds, s, hds, hy, hytext⟩ := y.exists_numeral_text
  rw [heq, hytext] at hxtext
  obtain ⟨c, cs', hc, hcdigit⟩ := hcs.head_isDigit
  obtain ⟨d, ds', hd, hddigit⟩ := hds.head_isDigit
  obtain ⟨hsign, hmagnitude⟩ : x.isNegative = y.isNegative ∧ cs = ds := by
    -- With different signs, a numeral would begin with the minus of the other text.
    cases hxs : x.isNegative <;> cases hys : y.isNegative <;>
      simp only [hxs, hys, if_true, if_false, Bool.false_eq_true, List.nil_append,
        List.singleton_append, List.cons.injEq, true_and] at hxtext
    · exact ⟨rfl, hxtext.symm⟩
    · rw [hc, List.cons.injEq] at hxtext
      exact absurd hcdigit (hxtext.1 ▸ by decide)
    · rw [hd, List.cons.injEq] at hxtext
      exact absurd hddigit (hxtext.1 ▸ by decide)
    · exact ⟨rfl, hxtext.symm⟩
  subst hmagnitude
  obtain rfl := hcs.unique hds
  exact eq_of_magnitudeCode hsign (hx.magnitudeCode_eq hy)

end Binary64

end PhpTree
