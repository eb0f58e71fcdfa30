import PhpTree.Proofs.Json.Grammar

/-!
# Numerals

The decimal digits of a natural are digits, and the first of them is zero only for zero itself. So
the text of an integer is a number of the grammar, and nothing but digits follows its sign.
-/

namespace PhpTree.Json

open Grammar (Digits FracPart IntPart Number)

/-! ## Digits -/

theorem digits_append {cs ds : List Char} (hcs : Digits cs) (hds : Digits ds) :
    Digits (cs ++ ds) :=
  List.forall_mem_append.2 ⟨hcs, hds⟩

theorem digits_replicate_zero (n : Nat) : Digits (List.replicate n '0') := by
  intro c hc
  rw [List.eq_of_mem_replicate hc]
  rfl

theorem fracPart_of_ne_nil {ds : List Char} (hne : ds ≠ []) (h : Digits ds) :
    FracPart ('.' :: ds) := by
  cases ds with
  | nil => exact absurd rfl hne
  | cons d ds =>
    rw [Digits, List.forall_mem_cons] at h
    exact .mk h.1 h.2

theorem fracPart_zero : FracPart ['.', '0'] :=
  fracPart_of_ne_nil (List.cons_ne_nil _ _) (digits_replicate_zero 1)

/-! ## Naturals -/

theorem digits_toDigits (n : Nat) : Digits (Nat.toDigits 10 n) :=
  fun _ hc => Nat.isDigit_of_mem_toDigits (by decide) (by decide) hc

/-- The first digit of a positive natural is not zero. -/
theorem exists_toDigits_eq_cons {n : Nat} (h : 0 < n) :
    ∃ d ds, Nat.toDigits 10 n = d :: ds ∧ d ≠ '0' := by
  induction n using Nat.base_induction 10 (by decide) with
  | single n hn =>
    refine ⟨n.digitChar, [], Nat.toDigits_of_lt_base hn, fun hzero => ?_⟩
    rw [Nat.digitChar_eq_zero] at hzero
    omega
  | digit m k hk hm ih =>
    obtain ⟨d, ds, hds, hd⟩ := ih hm
    refine ⟨d, ds ++ Nat.toDigits 10 k, ?_, hd⟩
    rw [← Nat.toDigits_append_toDigits (by decide) hm hk, hds, List.cons_append]

theorem intPart_of_cons {d : Char} {ds : List Char} (h : Digits (d :: ds)) (hd : d ≠ '0') :
    IntPart (d :: ds) :=
  .positive (h d List.mem_cons_self) hd fun c hc => h c (List.mem_cons_of_mem d hc)

theorem intPart_toDigits (n : Nat) : IntPart (Nat.toDigits 10 n) := by
  rcases Nat.eq_zero_or_pos n with rfl | hpos
  · rw [Nat.toDigits_zero]
    exact .zero
  · obtain ⟨d, ds, hds, hd⟩ := exists_toDigits_eq_cons hpos
    have hdigits := digits_toDigits n
    rw [hds] at hdigits ⊢
    exact intPart_of_cons hdigits hd

/-! ## Integers -/

theorem toList_toString_int (n : Int) :
    (toString n).toList =
      (if n < 0 then ['-'] else []) ++ Nat.toDigits 10 n.natAbs := by
  rw [Int.toString_eq_repr, Int.repr_eq_if]
  split
  · next h =>
    rw [if_neg (by omega), Nat.toList_repr, List.nil_append]
    congr 1
    omega
  · next h =>
    rw [if_pos (by omega), String.toList_append, Nat.toList_repr]
    congr 2
    omega

theorem toList_toString_nat (n : Nat) : (toString n).toList = Nat.toDigits 10 n := by
  rw [Nat.toString_eq_repr, Nat.toList_repr]

theorem number_of_intPart {minus int : List Char} (hminus : minus = [] ∨ minus = ['-'])
    (hint : IntPart int) : Number (minus ++ int) := by
  have h := Number.mk hminus hint (Or.inl rfl) (Or.inl rfl)
  rwa [List.append_nil, List.append_nil] at h

theorem number_int (n : Int) : Number (toString n).toList := by
  rw [toList_toString_int]
  refine number_of_intPart ?_ (intPart_toDigits _)
  split
  · exact Or.inr rfl
  · exact Or.inl rfl

theorem number_nat (n : Nat) : Number (toString n).toList := by
  rw [toList_toString_nat]
  exact number_of_intPart (Or.inl rfl) (intPart_toDigits n)

/-- In the text of an integer there are only digits and perhaps a sign. -/
theorem minus_or_digit_of_mem_int {n : Int} {c : Char} (h : c ∈ (toString n).toList) :
    c = '-' ∨ c.isDigit = true := by
  rw [toList_toString_int, List.mem_append] at h
  rcases h with h | h
  · split at h
    · exact Or.inl (List.mem_singleton.1 h)
    · exact absurd h List.not_mem_nil
  · exact Or.inr (digits_toDigits _ c h)

/-! ## Integers with one text -/

theorem toDigits_injective {m n : Nat} (h : Nat.toDigits 10 m = Nat.toDigits 10 n) : m = n := by
  have hvalue := congrArg (Nat.ofDigitChars 10 · 0) h
  simpa only [Nat.ofDigitChars_ten_toDigits] using hvalue

theorem minus_not_mem_toDigits (n : Nat) : '-' ∉ Nat.toDigits 10 n :=
  fun h => absurd (digits_toDigits n _ h) (by decide)

theorem toString_nat_injective {m n : Nat} (h : toString m = toString n) : m = n := by
  apply toDigits_injective
  rw [← toList_toString_nat, h, toList_toString_nat]

/-- The text of an integer determines the integer. -/
theorem toString_int_injective {m n : Int} (h : toString m = toString n) : m = n := by
  have hlist := toList_toString_int m
  rw [h, toList_toString_int] at hlist
  split at hlist <;> split at hlist
  · have habs := toDigits_injective (List.append_cancel_left hlist)
    omega
  · rw [List.nil_append, List.singleton_append] at hlist
    exact absurd (hlist ▸ List.mem_cons_self) (minus_not_mem_toDigits m.natAbs)
  · rw [List.nil_append, List.singleton_append] at hlist
    exact absurd (hlist ▸ List.mem_cons_self) (minus_not_mem_toDigits n.natAbs)
  · have habs := toDigits_injective (List.append_cancel_left hlist)
    omega

end PhpTree.Json
