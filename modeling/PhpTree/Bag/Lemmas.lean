import PhpTree.Bag.Basic

/-!
# Bags as maps

Looking a key up says all there is to say about a bag: each operation has one equation on `get?`,
and bags that agree on every key are equal. The keys of a bag ascend strictly.
-/

namespace PhpTree

/-! ## Entries -/

namespace Entries

variable {α : Type} {floor floor' : Option String}

/-- A key that does not lie above the bound is not there. -/
theorem find?_eq_none {key : String} : {floor : Option String} → (es : Entries α floor) →
    ¬ Above floor key → es.find? key = none
  | _, .nil, _ => rfl
  | _, .cons k v above rest, h => by
    have hne : key ≠ k := fun he => h (he ▸ above)
    rw [find?, if_neg hne]
    exact find?_eq_none rest fun hk => h (above.trans hk)

@[simp] theorem find?_relax (h : ∀ key, Above floor key → Above floor' key) (key : String)
    (es : Entries α floor) : (es.relax h).find? key = es.find? key := by
  cases es <;> rfl

theorem find?_insert (key k : String) (value : α) : {floor : Option String} →
    (es : Entries α floor) → (h : Above floor k) →
    (es.insert k value h).find? key = if key = k then some value else es.find? key
  | _, .nil, h => rfl
  | _, .cons k' v above rest, h => by
    unfold insert
    split
    · rfl
    · split
      · rename_i heq
        subst heq
        simp only [find?]
        split <;> rfl
      · rename_i hne
        simp only [find?, find?_insert key k value rest]
        split
        · rename_i heq
          subst heq
          rw [if_neg fun he => hne he.symm]
        · rfl

theorem find?_erase (key k : String) : {floor : Option String} → (es : Entries α floor) →
    (es.erase k).find? key = if key = k then none else es.find? key
  | _, .nil => by simp [erase, find?]
  | _, .cons k' v above rest => by
    unfold erase
    split
    · rename_i heq
      subst heq
      rw [find?_relax, find?]
      split
      · rename_i heq
        subst heq
        exact find?_eq_none rest fun h => String.lt_irrefl key (h key rfl)
      · rfl
    · rename_i hne
      simp only [find?, find?_erase key k rest]
      split
      · rename_i heq
        subst heq
        rw [if_neg fun he => hne he.symm]
      · rfl

/-- What is taken out is what was found, and what is left is what dropping the key leaves. -/
theorem remove_eq (key : String) : {floor : Option String} → (es : Entries α floor) →
    es.remove key = (es.find? key, es.erase key)
  | _, .nil => rfl
  | _, .cons k v above rest => by
    unfold remove find? erase
    split
    · rfl
    · rw [remove_eq key rest]

/-- Entries in which every key is found alike are equal. -/
theorem ext : {floor : Option String} → (es es' : Entries α floor) →
    (∀ key, es.find? key = es'.find? key) → es = es'
  | _, .nil, .nil, _ => rfl
  | _, .nil, .cons k v above rest, h => by simpa [find?] using h k
  | _, .cons k v above rest, .nil, h => by simpa [find?] using h k
  | _, .cons k v above rest, .cons k' v' above' rest', h => by
    have hkey : k = k' := by
      apply Decidable.byContradiction
      intro hne
      have hk := h k
      have hk' := h k'
      rw [find?, find?, if_pos rfl, if_neg hne] at hk
      rw [find?, find?, if_pos rfl, if_neg fun he => hne he.symm] at hk'
      have hlt : k' < k := Decidable.byContradiction fun hn => by
        rw [find?_eq_none rest' fun ha => hn (ha k' rfl)] at hk
        cases hk
      have hlt' : k < k' := Decidable.byContradiction fun hn => by
        rw [find?_eq_none rest fun ha => hn (ha k rfl)] at hk'
        cases hk'
      exact String.lt_irrefl k (String.lt_trans hlt' hlt)
    subst hkey
    have hv : v = v' := by
      have := h k
      rw [find?, find?, if_pos rfl, if_pos rfl] at this
      exact Option.some.inj this
    subst hv
    have hrest : rest = rest' := ext rest rest' fun key => by
      have hk := h key
      rw [find?, find?] at hk
      by_cases he : key = k
      · subst he
        have hnot : ¬ Above (some key) key := fun ha => String.lt_irrefl key (ha key rfl)
        rw [find?_eq_none rest hnot, find?_eq_none rest' hnot]
      · rwa [if_neg he, if_neg he] at hk
    rw [hrest]

/-- The keys of entries lie above the bound. -/
theorem above_of_mem_toList : {floor : Option String} → {es : Entries α floor} →
    {pair : String × α} → pair ∈ es.toList → Above floor pair.1
  | _, .cons k v above rest, pair, h => by
    rw [toList, List.mem_cons] at h
    rcases h with h | h
    · subst h
      exact above
    · exact above.trans (above_of_mem_toList h)

/-- The pairs of entries are the keys with what is found under them. -/
theorem mem_toList_iff {key : String} {value : α} : {floor : Option String} →
    {es : Entries α floor} → (key, value) ∈ es.toList ↔ es.find? key = some value
  | _, .nil => by simp [toList, find?]
  | _, .cons k v above rest => by
    rw [toList, List.mem_cons, find?, Prod.mk.injEq]
    split
    · rename_i heq
      subst heq
      constructor
      · rintro (h | h)
        · rw [h.2]
        · exact absurd (above_of_mem_toList h key rfl) (String.lt_irrefl key)
      · intro h
        exact Or.inl ⟨rfl, (Option.some.inj h).symm⟩
    · rename_i hne
      have ih : (key, value) ∈ rest.toList ↔ rest.find? key = some value := mem_toList_iff
      rw [← ih]
      constructor
      · rintro (h | h)
        · exact absurd h.1 hne
        · exact h
      · exact Or.inr

theorem pairwise_toList : {floor : Option String} → (es : Entries α floor) →
    es.toList.Pairwise fun a b => a.1 < b.1
  | _, .nil => List.Pairwise.nil
  | _, .cons k v above rest => by
    rw [toList, List.pairwise_cons]
    exact ⟨fun pair h => above_of_mem_toList h k rfl, pairwise_toList rest⟩

end Entries

/-! ## Bags -/

namespace Bag

variable {α : Type}

@[simp] theorem get?_empty (key : String) : (∅ : Bag α).get? key = none :=
  rfl

theorem get?_insert (b : Bag α) (key k : String) (value : α) :
    (b.insert k value).get? key = if key = k then some value else b.get? key :=
  Entries.find?_insert key k value b.entries (Above.of_none k)

theorem get?_erase (b : Bag α) (key k : String) :
    (b.erase k).get? key = if key = k then none else b.get? key :=
  Entries.find?_erase key k b.entries

theorem get?_modify (b : Bag α) (key k : String) (f : α → α) :
    (b.modify k f).get? key = if key = k then (b.get? key).map f else b.get? key := by
  unfold modify
  split
  · rename_i value hv
    rw [get?_insert]
    split
    · rename_i heq
      rw [heq, hv]
      rfl
    · rfl
  · rename_i hv
    split
    · rename_i heq
      rw [heq, hv]
      rfl
    · rfl

theorem get?_modifyD (b : Bag α) (key k : String) (default : α) (f : α → α) :
    (b.modifyD k default f).get? key =
      if key = k then some (f ((b.get? key).getD default)) else b.get? key := by
  rw [modifyD, get?_insert]
  split
  · rename_i heq
    rw [heq]
    rfl
  · rfl

theorem remove_eq (b : Bag α) (key : String) : b.remove key = (b.get? key, b.erase key) := by
  rw [remove, Entries.remove_eq]
  rfl

/-- Bags that agree on every key are equal. -/
theorem ext_get? {a b : Bag α} (h : ∀ key, a.get? key = b.get? key) : a = b := by
  cases a
  cases b
  exact congrArg Bag.mk (Entries.ext _ _ h)

/-- Of two values that are put under one key the second one stays. -/
theorem insert_insert (b : Bag α) (key : String) (value value' : α) :
    (b.insert key value).insert key value' = b.insert key value' := by
  apply ext_get?
  intro k
  rw [get?_insert, get?_insert, get?_insert]
  split <;> rfl

theorem mem_toList_iff {b : Bag α} {key : String} {value : α} :
    (key, value) ∈ b.toList ↔ b.get? key = some value :=
  Entries.mem_toList_iff

/-- The keys of a bag ascend strictly. -/
theorem pairwise_keys (b : Bag α) : b.keys.Pairwise (· < ·) :=
  List.pairwise_map.2 b.entries.pairwise_toList

theorem keys_nodup (b : Bag α) : b.keys.Nodup :=
  b.pairwise_keys.imp String.ne_of_lt

theorem contains_iff {b : Bag α} {key : String} : b.contains key = true ↔ b.get? key ≠ none :=
  Option.isSome_iff_ne_none

theorem mem_keys_iff {b : Bag α} {key : String} : key ∈ b.keys ↔ b.get? key ≠ none := by
  rw [keys, List.mem_map, Option.ne_none_iff_exists']
  constructor
  · rintro ⟨⟨k, value⟩, hmem, rfl⟩
    exact ⟨value, mem_toList_iff.1 hmem⟩
  · rintro ⟨value, hvalue⟩
    exact ⟨(key, value), mem_toList_iff.2 hvalue, rfl⟩

theorem isEmpty_iff {b : Bag α} : b.isEmpty = true ↔ b = ∅ := by
  rcases b with ⟨_ | _⟩
  · exact ⟨fun _ => rfl, fun _ => rfl⟩
  · constructor
    · intro h
      cases h
    · intro h
      cases h

/-- A bag is empty when nothing is found in it. -/
theorem isEmpty_iff_get? {b : Bag α} : b.isEmpty = true ↔ ∀ key, b.get? key = none := by
  rw [isEmpty_iff]
  constructor
  · rintro rfl key
    rfl
  · intro h
    exact ext_get? h

end Bag

end PhpTree
