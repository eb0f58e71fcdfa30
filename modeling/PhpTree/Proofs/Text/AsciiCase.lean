import PhpTree.Name.Basic
import PhpTree.Proofs.Text.Lowercase

/-!
# Lowercase texts of ASCII

Lowercase maps all characters, and the comparison that ignores case just the letters of ASCII. The two
see the same in a text of ASCII, as long as the letter k is not in it: no character beyond ASCII has a
lowercase form in such texts, and the Kelvin sign is the only one whose form is in ASCII at all
(`lowercaseRuns_leave_ascii`).
-/

namespace PhpTree.Text

/-! ## Letters of ASCII -/

theorem toNat_toLower (c : Char) :
    c.toLower.toNat = if 65 ≤ c.toNat ∧ c.toNat ≤ 90 then c.toNat + 32 else c.toNat := by
  have hrange : (c.val ≥ 'A'.val ∧ c.val ≤ 'Z'.val) ↔ 65 ≤ c.toNat ∧ c.toNat ≤ 90 :=
    and_congr UInt32.le_iff_toNat_le UInt32.le_iff_toNat_le
  unfold Char.toLower
  split
  · next h =>
    rw [if_pos (hrange.1 h)]
    have hlast : c.val.toNat ≤ 90 := (hrange.1 h).2
    have hshift : ('a'.val - 'A'.val).toNat = 32 := by decide
    change (c.val + ('a'.val - 'A'.val)).toNat = c.val.toNat + 32
    rw [UInt32.toNat_add, hshift]
    omega
  · next h => rw [if_neg (mt hrange.2 h)]

theorem toLower_toLower (c : Char) : c.toLower.toLower = c.toLower := by
  apply Char.toNat_inj.1
  rw [toNat_toLower c.toLower, if_neg]
  rw [toNat_toLower]
  split <;> omega

theorem toNat_toLower_lt_iff (c : Char) : c.toLower.toNat < 0x80 ↔ c.toNat < 0x80 := by
  rw [toNat_toLower]
  split <;> omega

/-! ## Characters that only ASCII leads to -/

/-- A character of ASCII other than the letter k. -/
def PlainAscii (c : Char) : Prop :=
  c.toNat < 0x80 ∧ c ≠ 'k'

instance (c : Char) : Decidable (PlainAscii c) :=
  inferInstanceAs (Decidable (c.toNat < 0x80 ∧ c ≠ 'k'))

/-- No run of the table leads into ASCII, but for the one of the Kelvin sign. -/
theorem lowercaseRuns_leave_ascii : ∀ run ∈ lowercaseRuns,
    0x80 ≤ run.first + run.shift ∨ run = ⟨0x212A, 0x212A, 1, -8383⟩ := by
  decide +kernel

example : lowercase "\u212a" = "k" := by decide +kernel

/-- The lowercase form of a character beyond ASCII is not plain ASCII. -/
theorem exists_not_plainAscii_of_le {c : Char} (h : 0x80 ≤ c.toNat) :
    ∃ b ∈ lowercaseChar c, ¬ PlainAscii b := by
  unfold lowercaseChar
  rw [if_neg (by omega)]
  split
  · -- The dot of the dotted I stays on its own.
    exact ⟨'\u0307', by simp, by decide⟩
  split
  · next run hfind =>
    have hrun := List.mem_of_find?_eq_some hfind
    have hcontains := List.find?_some hfind
    have hn := CaseRun.le_of_contains hcontains
    refine ⟨_, List.mem_singleton_self _, ?_⟩
    rcases lowercaseRuns_leave_ascii run hrun with hfar | rfl
    · intro hplain
      have hlt := hplain.1
      rw [toNat_ofNat_of_contains hrun hcontains] at hlt
      omega
    · have hc : c.toNat = 0x212A := Nat.le_antisymm hn.2 hn.1
      rw [hc]
      decide
  · exact ⟨c, List.mem_singleton_self c, fun hplain => absurd hplain.1 (by omega)⟩

theorem not_plainAscii_lowercaseSigma (before after : List Char) :
    ¬ PlainAscii (lowercaseSigma before after) := by
  unfold lowercaseSigma
  split <;> decide

/-! ## Texts -/

theorem lowercaseAfter_cons_of_lt {c : Char} (h : c.toNat < 0x80) (before s : List Char) :
    lowercaseAfter before (c :: s) = c.toLower :: lowercaseAfter (c :: before) s := by
  have hsigma : c ≠ capitalSigma := by
    rintro rfl
    exact absurd h (by decide)
  rw [lowercaseAfter, if_neg hsigma, lowercaseChar, if_pos h, List.singleton_append]

theorem exists_not_plainAscii_lowercaseAfter_cons {c : Char} (h : 0x80 ≤ c.toNat)
    (before s : List Char) : ∃ b ∈ lowercaseAfter before (c :: s), ¬ PlainAscii b := by
  rw [lowercaseAfter]
  split
  · exact ⟨_, List.mem_append_left _ (List.mem_singleton_self _),
      not_plainAscii_lowercaseSigma before s⟩
  · obtain ⟨b, hb, hplain⟩ := exists_not_plainAscii_of_le h
    exact ⟨b, List.mem_append_left _ hb, hplain⟩

/-- A text of plain ASCII is the lowercase form of just those texts that it comes from when nothing
but the letters of ASCII is mapped. -/
theorem lowercaseAfter_eq_iff {before s t : List Char} (ht : ∀ b ∈ t, PlainAscii b) :
    lowercaseAfter before s = t ↔ s.map Char.toLower = t := by
  induction s generalizing before t with
  | nil => rfl
  | cons c s ih =>
    rw [List.map_cons]
    by_cases hc : c.toNat < 0x80
    · rw [lowercaseAfter_cons_of_lt hc]
      cases t with
      | nil => exact iff_of_false (List.cons_ne_nil _ _) (List.cons_ne_nil _ _)
      | cons b t =>
        rw [List.cons.injEq, List.cons.injEq, ih fun b hb => ht b (List.mem_cons_of_mem _ hb)]
    · -- The character is too high for either map to lead into ASCII.
      refine iff_of_false ?_ ?_
      · rintro rfl
        obtain ⟨b, hb, hplain⟩ :=
          exists_not_plainAscii_lowercaseAfter_cons (Nat.not_lt.1 hc) before s
        exact hplain (ht b hb)
      · rintro rfl
        exact hc ((toNat_toLower_lt_iff c).1 (ht _ List.mem_cons_self).1)

/-! ## Equality that ignores the case of ASCII -/

/-- A text of plain ASCII without capitals, which is its own lowercase form. -/
structure PlainLowercase (t : String) : Prop where
  plainAscii : ∀ b ∈ t.toList, PlainAscii b
  map_toLower : t.toList.map Char.toLower = t.toList

namespace PlainLowercase

instance (t : String) : Decidable (PlainLowercase t) :=
  decidable_of_iff
    (t.toList.all (fun b => decide (PlainAscii b)) = true ∧ t.toList.map Char.toLower = t.toList)
    ⟨fun h => ⟨fun b hb => of_decide_eq_true (List.all_eq_true.1 h.1 b hb), h.2⟩,
      fun h => ⟨List.all_eq_true.2 fun b hb => decide_eq_true (h.plainAscii b hb), h.map_toLower⟩⟩

variable {s t : String}

theorem equalIgnoringAsciiCase_iff (h : PlainLowercase t) :
    equalIgnoringAsciiCase s t = true ↔ s.toList.map Char.toLower = t.toList := by
  rw [equalIgnoringAsciiCase, h.map_toLower, beq_iff_eq]

/-- Both ways to ignore case find the same texts. -/
theorem lowercase_eq_iff (h : PlainLowercase t) :
    lowercase s = t ↔ equalIgnoringAsciiCase s t = true := by
  rw [h.equalIgnoringAsciiCase_iff, ← lowercaseAfter_eq_iff h.plainAscii, lowercase,
    ← String.toList_inj, String.toList_ofList]

/-- A text has no character beyond ASCII if it is equal to such a text. -/
theorem lt_of_equalIgnoringAsciiCase (h : PlainLowercase t) (hs : equalIgnoringAsciiCase s t = true)
    {c : Char} (hc : c ∈ s.toList) : c.toNat < 0x80 := by
  have hmem : c.toLower ∈ s.toList.map Char.toLower := List.mem_map_of_mem hc
  rw [h.equalIgnoringAsciiCase_iff.1 hs] at hmem
  exact (toNat_toLower_lt_iff c).1 (h.plainAscii _ hmem).1

/-- Lowercase goes unnoticed where the case of ASCII is ignored. -/
theorem equalIgnoringAsciiCase_lowercase (h : PlainLowercase t) :
    equalIgnoringAsciiCase (lowercase s) t = equalIgnoringAsciiCase s t := by
  rw [Bool.eq_iff_iff, h.equalIgnoringAsciiCase_iff, ← h.lowercase_eq_iff]
  constructor
  · intro hmap
    -- The lowercase form is of plain ASCII too, so it is reached by mapping ASCII alone.
    have hplain : ∀ b ∈ (lowercase s).toList, PlainAscii b := by
      intro b hb
      have hmem : b.toLower ∈ t.toList := hmap ▸ List.mem_map_of_mem hb
      have hb' := h.plainAscii _ hmem
      refine ⟨(toNat_toLower_lt_iff b).1 hb'.1, ?_⟩
      rintro rfl
      exact hb'.2 rfl
    have hself : lowercaseAfter [] s.toList = (lowercase s).toList := String.toList_ofList.symm
    have hlower := (lowercaseAfter_eq_iff hplain).1 hself
    rw [← hlower, List.map_map] at hmap
    have hidem : Char.toLower ∘ Char.toLower = Char.toLower := funext toLower_toLower
    rw [hidem, hlower] at hmap
    exact String.toList_inj.1 hmap
  · rintro rfl
    exact h.map_toLower

end PlainLowercase

end PhpTree.Text
