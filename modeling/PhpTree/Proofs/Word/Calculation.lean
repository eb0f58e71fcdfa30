/-!
# Calculations on machine words

A calculation adds and subtracts signed words of 64 bits, and turns some of its results into
indices. It can be carried out in three ways: with exact integers, modulo the size of a word, or so
that it stops at the first result that does not fit. As long as every exact result fits a word and
no index comes from a negative one, the three ways agree.
-/

namespace PhpTree

/-- The integer is the value of a signed word of 64 bits. -/
def FitsWord (n : Int) : Prop :=
  -0x8000000000000000 ≤ n ∧ n < 0x8000000000000000

instance (n : Int) : Decidable (FitsWord n) :=
  inferInstanceAs (Decidable (_ ∧ _))

/-- The greatest value of a signed word. -/
def greatestWord : Nat :=
  0x7FFFFFFFFFFFFFFF

theorem fitsWord_toInt (w : Int64) : FitsWord w.toInt :=
  ⟨w.le_toInt, w.toInt_lt⟩

theorem toInt_ofInt_of_fitsWord {n : Int} (h : FitsWord n) : (Int64.ofInt n).toInt = n :=
  Int64.toInt_ofInt_of_le h.1 h.2

/-! ## Operations -/

/-- An operation on words, which are given by their values. -/
inductive WordOp where
  /-- A number of items as a signed word. -/
  | count (n : Nat)
  | add (a b : Int)
  | sub (a b : Int)

namespace WordOp

/-- The result in the integers. -/
def exact : WordOp → Int
  | count n => n
  | add a b => a + b
  | sub a b => a - b

/-- The result of the operation of the machine, which drops what does not fit. -/
def wrapped : WordOp → Int
  | count n => (Int64.ofNat n).toInt
  | add a b => (Int64.ofInt a + Int64.ofInt b).toInt
  | sub a b => (Int64.ofInt a - Int64.ofInt b).toInt

/-- The result, if it fits. -/
def checked (op : WordOp) : Option Int :=
  if FitsWord op.exact then some op.exact else none

theorem wrapped_eq_exact {op : WordOp} (h : FitsWord op.exact) : op.wrapped = op.exact := by
  have hword : op.wrapped = (Int64.ofInt op.exact).toInt := by
    cases op with
    | count n => rfl
    | add a b => exact congrArg Int64.toInt (Int64.ofInt_add a b).symm
    | sub a b => exact congrArg Int64.toInt (Int64.ofInt_sub a b).symm
  rw [hword, toInt_ofInt_of_fitsWord h]

theorem checked_eq_exact {op : WordOp} (h : FitsWord op.exact) : op.checked = some op.exact :=
  if_pos h

end WordOp

/-- The index that the machine makes of a word: the same bits, without a sign. -/
def wrappedIndex (a : Int) : Nat :=
  (Int64.ofInt a).toUInt64.toNat

theorem wrappedIndex_eq_toNat {a : Int} (hnonneg : 0 ≤ a) (h : FitsWord a) :
    wrappedIndex a = a.toNat := by
  obtain ⟨n, rfl⟩ := Int.eq_ofNat_of_zero_le hnonneg
  have hn : n < 2 ^ 64 := by
    unfold FitsWord at h
    omega
  rw [wrappedIndex, Int64.ofInt_eq_ofNat, Int64.toUInt64_ofNat', UInt64.toNat_ofNat_of_lt' hn,
    Int.toNat_natCast]

/-! ## Calculations -/

/-- A calculation with a result in `α`. How it goes on depends on what was calculated so far. -/
inductive Calculation (α : Type) where
  | done (a : α)
  | compute (op : WordOp) (next : Int → Calculation α)
  | toIndex (a : Int) (next : Nat → Calculation α)

namespace Calculation

variable {α β : Type}

/-- The result with exact integers. -/
def exact : Calculation α → α
  | done a => a
  | compute op next => (next op.exact).exact
  | toIndex a next => (next a.toNat).exact

/-- The result modulo the size of a word. -/
def wrapped : Calculation α → α
  | done a => a
  | compute op next => (next op.wrapped).wrapped
  | toIndex a next => (next (wrappedIndex a)).wrapped

/-- The result, if nothing on the way to it overflows and no index comes from a negative word. -/
def checked : Calculation α → Option α
  | done a => some a
  | compute op next => op.checked.bind fun a => (next a).checked
  | toIndex a next => if 0 ≤ a then (next a.toNat).checked else none

/-- The results of the operations, in the order in which the exact calculation comes by them. -/
def values : Calculation α → List Int
  | done _ => []
  | compute op next => op.exact :: (next op.exact).values
  | toIndex a next => (next a.toNat).values

/-- The words that the exact calculation makes indices of. -/
def casts : Calculation α → List Int
  | done _ => []
  | compute op next => (next op.exact).casts
  | toIndex a next => a :: (next a.toNat).casts

/-- Every result fits a word, and every index comes from a word that is not negative. -/
structure Safe (c : Calculation α) : Prop where
  values : ∀ v ∈ c.values, FitsWord v
  casts : ∀ a ∈ c.casts, 0 ≤ a ∧ FitsWord a

@[simp] theorem safe_done (a : α) : (done a).Safe :=
  ⟨fun _ hv => (nomatch hv), fun _ ha => (nomatch ha)⟩

theorem safe_compute_iff {op : WordOp} {next : Int → Calculation α} :
    (compute op next).Safe ↔ FitsWord op.exact ∧ (next op.exact).Safe := by
  constructor
  · intro h
    exact ⟨h.values _ List.mem_cons_self,
      fun v hv => h.values v (List.mem_cons_of_mem _ hv), h.casts⟩
  · rintro ⟨hop, hnext⟩
    exact ⟨List.forall_mem_cons.2 ⟨hop, hnext.values⟩, hnext.casts⟩

theorem safe_toIndex_iff {a : Int} {next : Nat → Calculation α} :
    (toIndex a next).Safe ↔ (0 ≤ a ∧ FitsWord a) ∧ (next a.toNat).Safe := by
  constructor
  · intro h
    exact ⟨h.casts _ List.mem_cons_self,
      h.values, fun v hv => h.casts v (List.mem_cons_of_mem _ hv)⟩
  · rintro ⟨ha, hnext⟩
    exact ⟨hnext.values, List.forall_mem_cons.2 ⟨ha, hnext.casts⟩⟩

/-! ## Calculations in a row -/

/-- The calculation that goes on with the result of another one. -/
def andThen : Calculation α → (α → Calculation β) → Calculation β
  | done a, f => f a
  | compute op next, f => compute op fun a => (next a).andThen f
  | toIndex a next, f => toIndex a fun i => (next i).andThen f

theorem exact_andThen (c : Calculation α) (f : α → Calculation β) :
    (c.andThen f).exact = (f c.exact).exact := by
  induction c with
  | done a => rfl
  | compute op next ih => exact ih op.exact
  | toIndex a next ih => exact ih a.toNat

theorem safe_andThen_iff {c : Calculation α} {f : α → Calculation β} :
    (c.andThen f).Safe ↔ c.Safe ∧ (f c.exact).Safe := by
  induction c with
  | done a => simp [andThen, exact]
  | compute op next ih =>
    rw [andThen, safe_compute_iff, safe_compute_iff, ih]
    exact and_assoc.symm
  | toIndex a next ih =>
    rw [andThen, safe_toIndex_iff, safe_toIndex_iff, ih]
    exact and_assoc.symm

/-! ## Agreement -/

/-- Modulo the size of a word, a safe calculation has its exact result. -/
theorem wrapped_eq_exact {c : Calculation α} (h : c.Safe) : c.wrapped = c.exact := by
  induction c with
  | done a => rfl
  | compute op next ih =>
    obtain ⟨hop, hnext⟩ := safe_compute_iff.1 h
    rw [wrapped, exact, WordOp.wrapped_eq_exact hop, ih _ hnext]
  | toIndex a next ih =>
    obtain ⟨⟨hnonneg, hfits⟩, hnext⟩ := safe_toIndex_iff.1 h
    rw [wrapped, exact, wrappedIndex_eq_toNat hnonneg hfits, ih _ hnext]

/-- Nothing stops a safe calculation, and it has its exact result. -/
theorem checked_eq_exact {c : Calculation α} (h : c.Safe) : c.checked = some c.exact := by
  induction c with
  | done a => rfl
  | compute op next ih =>
    obtain ⟨hop, hnext⟩ := safe_compute_iff.1 h
    rw [checked, exact, WordOp.checked_eq_exact hop, Option.bind_some, ih _ hnext]
  | toIndex a next ih =>
    obtain ⟨⟨hnonneg, -⟩, hnext⟩ := safe_toIndex_iff.1 h
    rw [checked, exact, if_pos hnonneg, ih _ hnext]

end Calculation

end PhpTree
