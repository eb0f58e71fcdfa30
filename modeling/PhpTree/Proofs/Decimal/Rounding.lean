import PhpTree.Proofs.Decimal.Value

/-!
# The reals that round to a number

The reals that round to the magnitude of a finite number lie between two ends, halfway to its
neighbours. The ends belong to them when the significand is even. The intervals of two magnitudes
have at most an end in common, and then one of the two significands is odd: a decimal reads back to
one magnitude only.
-/

namespace PhpTree.Binary64

/-! ## Fields -/

theorem fractionField_lt (x : Binary64) : x.fractionField < 0x10000000000000 :=
  Nat.mod_lt _ (by decide)

/-- The bits below the sign, as a natural. Magnitudes are in the order of these. -/
def magnitudeCode (x : Binary64) : Nat :=
  x.exponentField * 0x10000000000000 + x.fractionField

/-- The sign and the bits below it are all there is. -/
theorem eq_of_magnitudeCode {x y : Binary64} (hsign : x.isNegative = y.isNegative)
    (h : x.magnitudeCode = y.magnitudeCode) : x = y := by
  have hx := x.bits.toNat_lt
  have hy := y.bits.toNat_lt
  unfold isNegative signWeight at hsign
  unfold magnitudeCode exponentField fractionField fractionCount exponentCount at h
  rw [decide_eq_decide] at hsign
  have hbits : x.bits.toNat = y.bits.toNat := by omega
  cases x
  cases y
  exact congrArg mk (UInt64.toNat_inj.1 hbits)

theorem significand_pos {x : Binary64} (h : x.isZero = false) : 0 < x.significand := by
  simp only [isZero, Bool.and_eq_false_iff, beq_eq_false_iff_ne] at h
  unfold significand fractionCount
  split <;> omega

theorem exponent_eq (x : Binary64) : x.exponent = (x.exponentField - 1 : ℕ) + (-1074) := by
  unfold exponent
  split <;> omega

/-! ## Ends -/

/-- The lower end, in quarters of the least positive number. -/
def lowEnd (x : Binary64) : Nat :=
  (4 * x.significand - (if x.isNarrowBelow then 1 else 2)) * 2 ^ (x.exponentField - 1)

/-- The upper end, in quarters of the least positive number. -/
def highEnd (x : Binary64) : Nat :=
  (4 * x.significand + 2) * 2 ^ (x.exponentField - 1)

/-- A quarter of the least positive number. -/
def quarter : ℚ :=
  2 ^ (-1076 : ℤ)

theorem quarter_pos : 0 < quarter := by
  unfold quarter
  positivity

theorem zpow_exponent_sub_two (x : Binary64) :
    (2 : ℚ) ^ (x.exponent - 2) = 2 ^ (x.exponentField - 1) * quarter := by
  have h : x.exponent - 2 = (x.exponentField - 1 : ℕ) + (-1076) := by
    rw [exponent_eq]
    ring
  rw [h, zpow_add₀ (by norm_num), zpow_natCast, quarter]

/-- Whether a real rounds to the magnitude of `x`, a tie going to the even significand. -/
def Encloses (x : Binary64) (r : ℚ) : Prop :=
  (x.lowEnd * quarter < r ∨ x.significand % 2 = 0 ∧ r = x.lowEnd * quarter) ∧
    (r < x.highEnd * quarter ∨ x.significand % 2 = 0 ∧ r = x.highEnd * quarter)

/-- The test made on naturals is the test that the decimal rounds to the magnitude. -/
theorem admits_iff {x : Binary64} {d : Decimal} : x.admits d = true ↔ x.Encloses d.value := by
  have hlow : (x.lowEnd : ℚ) * quarter =
      (4 * x.significand - (if x.isNarrowBelow then 1 else 2) : ℕ) * 2 ^ (x.exponent - 2) := by
    rw [zpow_exponent_sub_two, lowEnd, Nat.cast_mul, Nat.cast_pow, Nat.cast_ofNat, mul_assoc]
  have hhigh : (x.highEnd : ℚ) * quarter =
      (4 * x.significand + 2 : ℕ) * 2 ^ (x.exponent - 2) := by
    rw [zpow_exponent_sub_two, highEnd, Nat.cast_mul, Nat.cast_pow, Nat.cast_ofNat, mul_assoc]
  rw [Encloses, hlow, hhigh]
  simp only [admits, Bool.and_eq_true, Bool.or_eq_true, beq_iff_eq, Decimal.compareBinary_eq_gt_iff,
    Decimal.compareBinary_eq_lt_iff, Decimal.compareBinary_eq_eq_iff]

/-! ## One magnitude only -/

/-- An end in one unit and an end in a unit at least twice as large. -/
theorem mul_le_mul_twice {a b p q : Nat} (hp : 0 < p) (hq : 0 < q) (h : a ≤ 2 * b) :
    a * p ≤ b * (p * (q * 2)) ∧ (a * p = b * (p * (q * 2)) → a = 2 * b) := by
  have hrw : b * (p * (q * 2)) = 2 * b * q * p := by ring
  have hbq : 2 * b ≤ 2 * b * q := Nat.le_mul_of_pos_right _ hq
  rw [hrw]
  refine ⟨Nat.mul_le_mul_right p (h.trans hbq), fun heq => ?_⟩
  have haq : a = 2 * b * q := Nat.eq_of_mul_eq_mul_right hp heq
  omega

/-- The interval of a smaller magnitude ends where that of a greater one starts, or before. When
they meet, just one of the significands is even. -/
theorem highEnd_le_lowEnd {x y : Binary64} (h : x.magnitudeCode < y.magnitudeCode) :
    x.highEnd ≤ y.lowEnd ∧
      (x.highEnd = y.lowEnd → x.significand % 2 ≠ y.significand % 2) := by
  have hx := x.fractionField_lt
  have hy := y.fractionField_lt
  simp only [highEnd, lowEnd, significand, isNarrowBelow, fractionCount, Bool.and_eq_true,
    beq_iff_eq, decide_eq_true_eq]
  unfold magnitudeCode at h
  generalize x.exponentField = E at h ⊢
  generalize y.exponentField = E' at h ⊢
  generalize x.fractionField = F at h hx ⊢
  generalize y.fractionField = F' at h hy ⊢
  have hp : 0 < 2 ^ (E - 1) := Nat.two_pow_pos _
  obtain rfl | ⟨rfl, rfl⟩ | ⟨hE', j, hj⟩ : E = E' ∨ (E = 0 ∧ E' = 1) ∨
      (1 < E' ∧ ∃ j, E' - 1 = E - 1 + (j + 1)) := by
    by_cases hE' : E' ≤ 1
    · omega
    · by_cases heq : E = E'
      · exact Or.inl heq
      · exact Or.inr (Or.inr ⟨by omega, E' - 1 - (E - 1) - 1, by omega⟩)
  · -- Neighbours with one exponent field are one unit apart.
    rw [if_neg (show ¬ (F' = 0 ∧ 1 < E) by omega), Nat.mul_le_mul_right_iff hp,
      Nat.mul_right_cancel_iff hp]
    split <;> omega
  · -- The least normal numbers are as far apart as the numbers below them.
    rw [if_pos rfl, if_neg (by decide), if_neg (by omega)]
    omega
  · -- Above these, a greater exponent field at least doubles the distance to the neighbours.
    rw [hj, pow_add, pow_succ, if_neg (show E' ≠ 0 by omega)]
    have hle : 4 * (if E = 0 then F else 0x10000000000000 + F) + 2 ≤
        2 * (4 * (0x10000000000000 + F') - if F' = 0 ∧ 1 < E' then 1 else 2) := by
      split <;> split <;> omega
    obtain ⟨hends, heq⟩ := mul_le_mul_twice hp (Nat.two_pow_pos j) hle
    refine ⟨hends, fun hmeet => ?_⟩
    have hfactors := heq hmeet
    revert hfactors
    split <;> split <;> omega

/-- No real rounds to two magnitudes. -/
theorem not_encloses_of_lt {x y : Binary64} {r : ℚ} (h : x.magnitudeCode < y.magnitudeCode)
    (hx : x.Encloses r) : ¬ y.Encloses r := by
  intro hy
  obtain ⟨hends, hparity⟩ := highEnd_le_lowEnd h
  have hcast : (x.highEnd : ℚ) * quarter ≤ y.lowEnd * quarter :=
    mul_le_mul_of_nonneg_right (by exact_mod_cast hends) quarter_pos.le
  rcases hx.2 with hlt | ⟨hxeven, hxeq⟩
  · rcases hy.1 with hgt | ⟨_, hyeq⟩
    · linarith
    · linarith
  · rcases hy.1 with hgt | ⟨hyeven, hyeq⟩
    · linarith
    · have hmeet : (x.highEnd : ℚ) = y.lowEnd :=
        mul_right_cancel₀ quarter_pos.ne' (hxeq.symm.trans hyeq)
      exact hparity (by exact_mod_cast hmeet) (by rw [hxeven, hyeven])

theorem Encloses.magnitudeCode_eq {x y : Binary64} {r : ℚ} (hx : x.Encloses r)
    (hy : y.Encloses r) : x.magnitudeCode = y.magnitudeCode := by
  rcases Nat.lt_trichotomy x.magnitudeCode y.magnitudeCode with hlt | heq | hgt
  · exact absurd hy (not_encloses_of_lt hlt hx)
  · exact heq
  · exact absurd hx (not_encloses_of_lt hgt hy)

/-! ## The shortest decimal -/

theorem magnitude_eq (x : Binary64) :
    x.magnitude = (4 * x.significand * 2 ^ (x.exponentField - 1) : ℕ) * quarter := by
  have h := zpow_exponent_sub_two x
  rw [zpow_sub₀ (by norm_num)] at h
  rw [magnitude]
  push_cast
  rw [mul_assoc, ← h]
  ring

theorem encloses_magnitude {x : Binary64} (h : x.isZero = false) : x.Encloses x.magnitude := by
  have hpos := significand_pos h
  have hp : 0 < 2 ^ (x.exponentField - 1) := Nat.two_pow_pos _
  have hlow : x.lowEnd < 4 * x.significand * 2 ^ (x.exponentField - 1) := by
    refine Nat.mul_lt_mul_of_pos_right ?_ hp
    split <;> omega
  have hhigh : 4 * x.significand * 2 ^ (x.exponentField - 1) < x.highEnd :=
    Nat.mul_lt_mul_of_pos_right (by omega) hp
  rw [magnitude_eq]
  exact ⟨Or.inl (mul_lt_mul_of_pos_right (by exact_mod_cast hlow) quarter_pos),
    Or.inl (mul_lt_mul_of_pos_right (by exact_mod_cast hhigh) quarter_pos)⟩

theorem Encloses.pos {x : Binary64} {r : ℚ} (h : x.isZero = false) (hr : x.Encloses r) :
    0 < r := by
  have hpos := significand_pos h
  have hlow : 0 < x.lowEnd := by
    refine Nat.mul_pos ?_ (Nat.two_pow_pos _)
    split <;> omega
  have hcast : 0 < (x.lowEnd : ℚ) * quarter := mul_pos (by exact_mod_cast hlow) quarter_pos
  rcases hr.1 with hlt | ⟨_, heq⟩
  · linarith
  · linarith

theorem nearerAt_eq_or (x : Binary64) (low : Nat) (e : Int) :
    x.nearerAt low e = low ∨ x.nearerAt low e = low + 1 := by
  unfold nearerAt
  split
  · exact Or.inr rfl
  · exact Or.inl rfl
  · split
    · exact Or.inl rfl
    · exact Or.inr rfl

theorem admits_of_candidateAt {x : Binary64} {e : Int} {d : Decimal}
    (h : x.candidateAt e = some d) : x.admits d = true := by
  unfold candidateAt at h
  dsimp only at h
  split at h
  · next hlow hhigh =>
    cases h
    rcases x.nearerAt_eq_or (x.floorAt e) e with hnear | hnear
    · rwa [hnear]
    · rwa [hnear]
  · next hlow _ =>
    cases h
    exact hlow
  · next _ hhigh =>
    cases h
    exact hhigh
  · cases h

/-- The decimal that is written for a number reads back. -/
theorem encloses_shortest {x : Binary64} (h : x.isZero = false) :
    x.Encloses x.shortest.value := by
  simp only [shortest, Decimal.value_normalize]
  cases hfound : (List.range 17).findSome? fun n => x.candidateAt (x.decimalScale - (n + 1 : Nat)) with
  | none =>
    -- That seventeen digits are always enough is not needed: the exact decimal encloses too.
    rw [Option.getD_none, value_exactDecimal]
    exact encloses_magnitude h
  | some d =>
    obtain ⟨n, _, hn⟩ := List.exists_of_findSome?_eq_some hfound
    exact admits_iff.1 (admits_of_candidateAt hn)

end PhpTree.Binary64
