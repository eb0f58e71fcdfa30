import PhpTree.Value.Equality

/-!
# Equality of values

Equality compares numbers as numbers, and all else as it is. So it takes two things to be the same: no
number in either value may be not a number, at whatever depth, and the values have to be identical but
for the signs of zeros. The second is an equality of values in which all zeros have one sign
(`Value.same_iff`).
-/

namespace PhpTree

/-! ## Numbers -/

namespace Binary64

def zero : Binary64 := ⟨0⟩

def negativeZero : Binary64 := ⟨0x8000000000000000⟩

/-- The number itself, but zero in the place of negative zero. -/
def mergeZeros (x : Binary64) : Binary64 :=
  if x = negativeZero then zero else x

/-- Of all the fields only the sign is left open by a zero. -/
theorem isZero_iff {x : Binary64} : x.isZero = true ↔ x = zero ∨ x = negativeZero := by
  obtain ⟨bits⟩ := x
  have hbits : bits.toNat < 2 ^ 64 := bits.toNat_lt
  simp only [isZero, exponentField, fractionField, exponentCount, fractionCount, Bool.and_eq_true,
    beq_iff_eq, zero, negativeZero, mk.injEq, ← UInt64.toNat_inj, UInt64.reduceToNat]
  omega

theorem mergeZeros_eq_iff {x y : Binary64} :
    x.mergeZeros = y.mergeZeros ↔ x = y ∨ (x.isZero = true ∧ y.isZero = true) := by
  have hne : zero ≠ negativeZero := by decide
  rw [isZero_iff, isZero_iff]
  unfold mergeZeros
  split <;> split <;> grind

theorem same_iff {x y : Binary64} : x.same y = true ↔
    x.isNaN = false ∧ y.isNaN = false ∧ x.mergeZeros = y.mergeZeros := by
  rw [mergeZeros_eq_iff, same]
  simp only [Bool.and_eq_true, Bool.or_eq_true, Bool.not_eq_true', beq_iff_eq, and_assoc]

theorem mergeZeros_of_not_isZero {x : Binary64} (h : x.isZero = false) : x.mergeZeros = x := by
  apply if_neg
  rintro rfl
  exact absurd h (by decide)

end Binary64

/-! ## Numbers in values -/

mutual

/-- The numbers in a value, at every depth. -/
def Value.numbers : Value → List Binary64
  | .float x => [x]
  | .list items => Value.listNumbers items
  | .name x => x.numbers
  | .null | .bool _ | .int _ | .str _ | .comments _ => []

/-- The numbers in the values of a list. -/
def Value.listNumbers : List Value → List Binary64
  | [] => []
  | v :: vs => v.numbers ++ Value.listNumbers vs

/-- The numbers in the attributes of a name. -/
def Name.numbers : Name → List Binary64
  | ⟨_, _, ⟨entries⟩⟩ => Value.entriesNumbers entries

/-- The numbers in the values of entries. -/
def Value.entriesNumbers : {floor : Option String} → Entries Value floor → List Binary64
  | _, .nil => []
  | _, .cons _ v _ rest => v.numbers ++ Value.entriesNumbers rest

end

/-- The numbers in attributes. -/
def Bag.numbers (b : Attributes) : List Binary64 :=
  Value.entriesNumbers b.entries

mutual

/-- The value with `f` applied to the numbers in it. -/
def Value.mapNumbers (f : Binary64 → Binary64) : Value → Value
  | .null => .null
  | .bool b => .bool b
  | .int n => .int n
  | .float x => .float (f x)
  | .str s => .str s
  | .comments cs => .comments cs
  | .list items => .list (Value.listMapNumbers f items)
  | .name x => .name (x.mapNumbers f)

/-- The values of a list with `f` applied to the numbers in them. -/
def Value.listMapNumbers (f : Binary64 → Binary64) : List Value → List Value
  | [] => []
  | v :: vs => v.mapNumbers f :: Value.listMapNumbers f vs

/-- The name with `f` applied to the numbers in its attributes. -/
def Name.mapNumbers (f : Binary64 → Binary64) : Name → Name
  | ⟨text, kind, ⟨entries⟩⟩ => ⟨text, kind, ⟨Value.entriesMapNumbers f entries⟩⟩

/-- The entries with `f` applied to the numbers in their values. -/
def Value.entriesMapNumbers (f : Binary64 → Binary64) :
    {floor : Option String} → Entries Value floor → Entries Value floor
  | _, .nil => .nil
  | _, .cons key v above rest => .cons key (v.mapNumbers f) above (Value.entriesMapNumbers f rest)

end

/-- The attributes with `f` applied to the numbers in them. -/
def Bag.mapNumbers (f : Binary64 → Binary64) (b : Attributes) : Attributes :=
  ⟨Value.entriesMapNumbers f b.entries⟩

mutual

/-- Nothing changes where all numbers stay. -/
theorem Value.mapNumbers_eq_self {f : Binary64 → Binary64} : ∀ {v : Value},
    (∀ a ∈ v.numbers, f a = a) → v.mapNumbers f = v
  | .null, _ | .bool _, _ | .int _, _ | .str _, _ | .comments _, _ => rfl
  | .float x, h => congrArg Value.float (h x (List.mem_singleton_self x))
  | .list _, h => congrArg Value.list (Value.listMapNumbers_eq_self h)
  | .name _, h => congrArg Value.name (Name.mapNumbers_eq_self h)

theorem Value.listMapNumbers_eq_self {f : Binary64 → Binary64} : ∀ {vs : List Value},
    (∀ a ∈ Value.listNumbers vs, f a = a) → Value.listMapNumbers f vs = vs
  | [], _ => rfl
  | v :: vs, h => by
    rw [Value.listNumbers, List.forall_mem_append] at h
    rw [Value.listMapNumbers, Value.mapNumbers_eq_self h.1, Value.listMapNumbers_eq_self h.2]

theorem Name.mapNumbers_eq_self {f : Binary64 → Binary64} : ∀ {x : Name},
    (∀ a ∈ x.numbers, f a = a) → x.mapNumbers f = x
  | ⟨_, _, ⟨_⟩⟩, h => by
    rw [Name.mapNumbers, Value.entriesMapNumbers_eq_self h]

theorem Value.entriesMapNumbers_eq_self {f : Binary64 → Binary64} : ∀ {floor : Option String}
    {es : Entries Value floor},
    (∀ a ∈ Value.entriesNumbers es, f a = a) → Value.entriesMapNumbers f es = es
  | _, .nil, _ => rfl
  | _, .cons _ v _ rest, h => by
    rw [Value.entriesNumbers, List.forall_mem_append] at h
    rw [Value.entriesMapNumbers, Value.mapNumbers_eq_self h.1, Value.entriesMapNumbers_eq_self h.2]

end

/-! ## Equality -/

/-- None of them is not a number. -/
def AllNumbers (as : List Binary64) : Prop :=
  ∀ a ∈ as, a.isNaN = false

instance (as : List Binary64) : Decidable (AllNumbers as) :=
  inferInstanceAs (Decidable (∀ a ∈ as, a.isNaN = false))

theorem allNumbers_nil : AllNumbers [] :=
  List.forall_mem_nil _

theorem allNumbers_append_iff {as bs : List Binary64} :
    AllNumbers (as ++ bs) ↔ AllNumbers as ∧ AllNumbers bs :=
  List.forall_mem_append

theorem allNumbers_singleton_iff {a : Binary64} : AllNumbers [a] ↔ a.isNaN = false :=
  List.forall_mem_singleton

mutual

/-- Values are the same if there are only numbers in them and they are identical but for the signs of
zeros. -/
theorem Value.same_iff : ∀ {v w : Value}, v.same w = true ↔ AllNumbers v.numbers ∧
    AllNumbers w.numbers ∧ v.mapNumbers Binary64.mergeZeros = w.mapNumbers Binary64.mergeZeros
  | .null, w | .bool _, w | .int _, w | .str _, w | .comments _, w => by
    cases w <;> simp [Value.same, Value.mapNumbers, Value.numbers, allNumbers_nil]
  | .float a, w => by
    cases w with
    | float b =>
      simp only [Value.same, Value.mapNumbers, Value.numbers, allNumbers_singleton_iff,
        Binary64.same_iff, Value.float.injEq]
    | _ => simp [Value.same, Value.mapNumbers]
  | .list vs, w => by
    cases w with
    | list ws =>
      simp only [Value.same, Value.mapNumbers, Value.numbers, Value.list.injEq,
        @Value.sameList_iff vs ws]
    | _ => simp [Value.same, Value.mapNumbers]
  | .name x, w => by
    cases w with
    | name y =>
      simp only [Value.same, Value.mapNumbers, Value.numbers, Value.name.injEq,
        @Name.same_iff x y]
    | _ => simp [Value.same, Value.mapNumbers]

theorem Value.sameList_iff : ∀ {vs ws : List Value}, Value.sameList vs ws = true ↔
    AllNumbers (Value.listNumbers vs) ∧ AllNumbers (Value.listNumbers ws) ∧
      Value.listMapNumbers Binary64.mergeZeros vs = Value.listMapNumbers Binary64.mergeZeros ws
  | [], [] => by simp [Value.sameList, Value.listNumbers, allNumbers_nil]
  | [], _ :: _ => by simp [Value.sameList, Value.listMapNumbers]
  | _ :: _, [] => by simp [Value.sameList, Value.listMapNumbers]
  | v :: vs, w :: ws => by
    simp only [Value.sameList, Bool.and_eq_true, @Value.same_iff v w, @Value.sameList_iff vs ws,
      Value.listNumbers, Value.listMapNumbers, allNumbers_append_iff, List.cons.injEq]
    grind

theorem Name.same_iff : ∀ {x y : Name}, x.same y = true ↔ AllNumbers x.numbers ∧
    AllNumbers y.numbers ∧ x.mapNumbers Binary64.mergeZeros = y.mapNumbers Binary64.mergeZeros
  | ⟨text, kind, ⟨entries⟩⟩, ⟨text', kind', ⟨entries'⟩⟩ => by
    simp only [Name.same, Bool.and_eq_true, beq_iff_eq, @Value.sameEntries_iff _ entries entries',
      Name.numbers, Name.mapNumbers, Name.mk.injEq, Bag.mk.injEq]
    grind

theorem Value.sameEntries_iff : ∀ {floor : Option String} {es es' : Entries Value floor},
    Value.sameEntries es es' = true ↔ AllNumbers (Value.entriesNumbers es) ∧
      AllNumbers (Value.entriesNumbers es') ∧
        Value.entriesMapNumbers Binary64.mergeZeros es =
          Value.entriesMapNumbers Binary64.mergeZeros es'
  | _, .nil, .nil => by simp [Value.sameEntries, Value.entriesNumbers, allNumbers_nil]
  | _, .nil, .cons .. => by simp [Value.sameEntries, Value.entriesMapNumbers]
  | _, .cons .., .nil => by simp [Value.sameEntries, Value.entriesMapNumbers]
  | _, .cons key v above rest, .cons key' v' above' rest' => by
    by_cases hkey : key = key'
    · subst hkey
      simp only [Value.sameEntries, Bool.and_eq_true, beq_self_eq_true, true_and,
        @Value.same_iff v v', @Value.sameEntries_iff _ rest rest', Value.entriesNumbers,
        Value.entriesMapNumbers, allNumbers_append_iff, Entries.cons.injEq, heq_eq_eq]
      grind
    · simp [Value.sameEntries, Value.entriesMapNumbers, hkey]

end

end PhpTree
