import PhpTree.Text.Lowercase

/-!
# Lowercase around the ends of words

The form of a capital sigma depends on characters that may stand far away from it, but no further
than the next character that ends words. What stands before such a character and what stands behind
it are mapped each on their own (`lowercaseAfter_append_cons`).

No lowercase form is lower than the letter a, except that of a character which stays as it is
(`eq_or_le_of_mem_lowercaseChar`). So characters below it are in a lowercase text only where they
were before.
-/

namespace PhpTree.Text

/-- A character that ends words, whatever stands on its other side, and is its own lowercase form.
-/
structure EndsWords (b : Char) : Prop where
  not_cased : isCased b = false
  not_caseIgnorable : isCaseIgnorable b = false
  lowercaseChar_eq : lowercaseChar b = [b]

/-! ## The context of a sigma -/

theorem reachesCased_cons (c : Char) (s : List Char) :
    reachesCased (c :: s) = if isCaseIgnorable c then reachesCased s else isCased c := by
  unfold reachesCased
  rw [List.dropWhile_cons]
  by_cases hc : isCaseIgnorable c = true
  · rw [if_pos hc, if_pos hc]
  · rw [if_neg hc, if_neg hc]

namespace EndsWords

variable {b : Char}

theorem ne_capitalSigma (h : EndsWords b) : b ≠ capitalSigma := by
  rintro rfl
  have hcased : isCased capitalSigma = true := by decide +kernel
  rw [h.not_cased] at hcased
  cases hcased

theorem reachesCased_append_cons (h : EndsWords b) (s t : List Char) :
    reachesCased (s ++ b :: t) = reachesCased s := by
  induction s with
  | nil => rw [List.nil_append, reachesCased_cons, h.not_caseIgnorable, h.not_cased]; rfl
  | cons c s ih => rw [List.cons_append, reachesCased_cons, reachesCased_cons, ih]

/-- What stands before a character that ends words makes no difference behind it. -/
theorem lowercaseAfter_append_cons_before (h : EndsWords b) (before rest s : List Char) :
    lowercaseAfter (before ++ b :: rest) s = lowercaseAfter before s := by
  -- Characters of `s` that have been read stand in front of `before`, nearer than `b`.
  induction s generalizing before with
  | nil => rfl
  | cons c s ih =>
    have htail := ih (c :: before)
    rw [List.cons_append] at htail
    simp only [lowercaseAfter, lowercaseSigma, htail, h.reachesCased_append_cons]

/-- A character that ends words parts a text into two that are mapped each on their own. -/
theorem lowercaseAfter_append_cons (h : EndsWords b) (before s t : List Char) :
    lowercaseAfter before (s ++ b :: t) = lowercaseAfter before s ++ b :: lowercaseAfter [] t := by
  induction s generalizing before with
  | nil =>
    have htail := h.lowercaseAfter_append_cons_before [] before t
    rw [List.nil_append] at htail
    simp only [List.nil_append, lowercaseAfter, if_neg h.ne_capitalSigma, h.lowercaseChar_eq, htail,
      List.singleton_append]
  | cons c s ih =>
    rw [List.cons_append, lowercaseAfter, lowercaseAfter, ih, List.append_assoc, lowercaseSigma,
      lowercaseSigma, h.reachesCased_append_cons]

theorem lowercase_append (h : EndsWords b) (s t : String) :
    lowercase (s ++ String.singleton b ++ t) =
      lowercase s ++ String.singleton b ++ lowercase t := by
  have hlist : (s ++ String.singleton b ++ t).toList = s.toList ++ b :: t.toList := by simp
  apply String.toList_injective
  rw [lowercase, hlist, h.lowercaseAfter_append_cons]
  simp [lowercase]

end EndsWords

/-! ## Characters that lowercase forms have -/

/-- Every run of the table leads from characters to characters, and to none below the letter a. -/
theorem lowercaseRuns_bounds : ∀ run ∈ lowercaseRuns,
    ('a'.toNat : Int) ≤ run.first + run.shift ∧
      (run.last + run.shift < 0xD800 ∨
        0xDFFF < run.first + run.shift ∧ run.last + run.shift < 0x110000) := by
  decide +kernel

theorem CaseRun.le_of_contains {run : CaseRun} {n : Nat} (h : run.contains n = true) :
    run.first ≤ n ∧ n ≤ run.last := by
  simp only [contains, Bool.and_eq_true, decide_eq_true_eq] at h
  exact h.1

/-- The characters of a run are mapped to the code points in the table. -/
theorem toNat_ofNat_of_contains {run : CaseRun} (hrun : run ∈ lowercaseRuns) {n : Nat}
    (h : run.contains n = true) :
    (Char.ofNat (n + run.shift).toNat).toNat = (n + run.shift).toNat := by
  have hbounds := lowercaseRuns_bounds run hrun
  have hn := CaseRun.le_of_contains h
  have hvalid : (n + run.shift).toNat.isValidChar := by
    unfold Nat.isValidChar
    omega
  rw [Char.ofNat, dif_pos hvalid]
  rfl

theorem toLower_eq_or_le (c : Char) : c.toLower = c ∨ 'a'.toNat ≤ c.toLower.toNat := by
  unfold Char.toLower
  split
  · next h =>
    have hfirst : 65 ≤ c.val.toNat := UInt32.le_iff_toNat_le.1 h.1
    have hlast : c.val.toNat ≤ 90 := UInt32.le_iff_toNat_le.1 h.2
    have hshift : ('a'.val - 'A'.val).toNat = 32 := by decide
    right
    change 97 ≤ (c.val + ('a'.val - 'A'.val)).toNat
    rw [UInt32.toNat_add, hshift]
    omega
  · exact Or.inl rfl

/-- A character in a lowercase form is the one that it was before, or not below the letter a. -/
theorem eq_or_le_of_mem_lowercaseChar {b c : Char} (h : b ∈ lowercaseChar c) :
    b = c ∨ 'a'.toNat ≤ b.toNat := by
  unfold lowercaseChar at h
  split at h
  · rw [List.mem_singleton.1 h]
    exact toLower_eq_or_le c
  split at h
  · right
    rcases List.mem_cons.1 h with rfl | h
    · decide
    · rw [List.mem_singleton.1 h]
      decide
  split at h
  · next run hfind =>
    have hrun := List.mem_of_find?_eq_some hfind
    have hcontains := List.find?_some hfind
    have hbounds := lowercaseRuns_bounds run hrun
    have hn := CaseRun.le_of_contains hcontains
    right
    rw [List.mem_singleton.1 h, toNat_ofNat_of_contains hrun hcontains]
    omega
  · exact Or.inl (List.mem_singleton.1 h)

theorem le_toNat_lowercaseSigma (before after : List Char) :
    'a'.toNat ≤ (lowercaseSigma before after).toNat := by
  unfold lowercaseSigma
  split <;> decide

/-- A character below the letter a is in a lowercase text only if it was in the text. -/
theorem mem_of_mem_lowercaseAfter {b : Char} (hb : b.toNat < 'a'.toNat) {before s : List Char}
    (h : b ∈ lowercaseAfter before s) : b ∈ s := by
  induction s generalizing before with
  | nil => exact h
  | cons c s ih =>
    rw [lowercaseAfter, List.mem_append] at h
    rcases h with h | h
    · split at h
      · rw [List.mem_singleton.1 h] at hb
        have hle := le_toNat_lowercaseSigma before s
        omega
      · rcases eq_or_le_of_mem_lowercaseChar h with rfl | hle
        · exact List.mem_cons_self
        · omega
    · exact List.mem_cons_of_mem c (ih h)

theorem mem_of_mem_lowercase {b : Char} (hb : b.toNat < 'a'.toNat) {s : String}
    (h : b ∈ (lowercase s).toList) : b ∈ s.toList := by
  rw [lowercase, String.toList_ofList] at h
  exact mem_of_mem_lowercaseAfter hb h

end PhpTree.Text
