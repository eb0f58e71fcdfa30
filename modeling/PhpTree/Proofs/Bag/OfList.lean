import PhpTree.Bag.Lemmas

/-!
# The bag of a list of pairs

Putting pairs into a bag sorts them. Pairs with distinct keys are all kept, and pairs that ascend
already stay in place.
-/

namespace PhpTree

/-! ## Entries -/

namespace Entries

variable {α : Type}

/-- A new key adds its pair to the pairs that were there. -/
theorem perm_insert {key : String} (value : α) : {floor : Option String} →
    {es : Entries α floor} → (h : Above floor key) → key ∉ es.toList.map Prod.fst →
      (es.insert key value h).toList.Perm ((key, value) :: es.toList)
  | _, .nil, _, _ => List.Perm.refl _
  | _, .cons k v above rest, h, hnew => by
    rw [toList, List.map_cons, List.mem_cons, not_or] at hnew
    unfold insert
    split
    · exact List.Perm.refl _
    · rw [dif_neg hnew.1, toList, toList]
      have ih := perm_insert value (Above.of_not_lt_of_ne ‹_› hnew.1) hnew.2
      exact (ih.cons _).trans (List.Perm.swap _ _ _)

theorem mem_toList_of_mem_insert {key : String} {value : α} {pair : String × α} :
    {floor : Option String} → {es : Entries α floor} → {h : Above floor key} →
      pair ∈ (es.insert key value h).toList → pair = (key, value) ∨ pair ∈ es.toList
  | _, .nil, _, hmem => Or.inl (List.mem_singleton.1 hmem)
  | _, .cons k v above rest, h, hmem => by
    unfold insert at hmem
    split at hmem
    · exact List.mem_cons.1 hmem
    · split at hmem
      · next heq =>
        rcases List.mem_cons.1 hmem with rfl | hmem
        · exact Or.inl (by rw [heq])
        · exact Or.inr (List.mem_cons_of_mem _ hmem)
      · rcases List.mem_cons.1 hmem with rfl | hmem
        · exact Or.inr List.mem_cons_self
        · rcases mem_toList_of_mem_insert hmem with rfl | hmem
          · exact Or.inl rfl
          · exact Or.inr (List.mem_cons_of_mem _ hmem)

end Entries

/-! ## Bags -/

namespace Bag

variable {α : Type}

theorem perm_insert {b : Bag α} {key : String} (value : α) (h : key ∉ b.keys) :
    (b.insert key value).toList.Perm ((key, value) :: b.toList) :=
  Entries.perm_insert value (Above.of_none key) h

/-- New keys, all distinct, add their pairs to the pairs that were there. -/
theorem perm_insertMany {pairs : List (String × α)} (hnodup : (pairs.map Prod.fst).Nodup)
    {b : Bag α} (hnew : ∀ key ∈ pairs.map Prod.fst, key ∉ b.keys) :
    (b.insertMany pairs).toList.Perm (pairs ++ b.toList) := by
  induction pairs generalizing b with
  | nil => exact List.Perm.refl _
  | cons pair pairs ih =>
    obtain ⟨key, value⟩ := pair
    rw [List.map_cons, List.nodup_cons] at hnodup
    have hinsert := perm_insert value (hnew key List.mem_cons_self)
    have hnew' : ∀ k ∈ pairs.map Prod.fst, k ∉ (b.insert key value).keys := by
      intro k hk hmem
      have hmem : k ∈ key :: b.keys := (hinsert.map Prod.fst).mem_iff.1 hmem
      rcases List.mem_cons.1 hmem with rfl | hmem
      · exact hnodup.1 hk
      · exact hnew k (List.mem_cons_of_mem _ hk) hmem
    have hrest := ih hnodup.2 hnew'
    exact (hrest.trans (hinsert.append_left pairs)).trans List.perm_middle

/-- Pairs with distinct keys are all kept. -/
theorem perm_ofList {pairs : List (String × α)} (h : (pairs.map Prod.fst).Nodup) :
    (ofList pairs).toList.Perm pairs := by
  have hperm := perm_insertMany h (b := ∅) fun _ _ => List.not_mem_nil
  have hempty : (∅ : Bag α).toList = [] := rfl
  rwa [hempty, List.append_nil] at hperm

theorem mem_of_mem_ofList {pairs : List (String × α)} {pair : String × α}
    (h : pair ∈ (ofList pairs).toList) : pair ∈ pairs := by
  suffices hmany : ∀ (ps : List (String × α)) (b : Bag α),
      pair ∈ (b.insertMany ps).toList → pair ∈ ps ∨ pair ∈ b.toList by
    rcases hmany pairs ∅ h with h | h
    · exact h
    · exact absurd h List.not_mem_nil
  intro ps
  induction ps with
  | nil => exact fun _ h => Or.inr h
  | cons p ps ih =>
    intro b hmem
    rcases ih (b.insert p.1 p.2) hmem with hmem | hmem
    · exact Or.inl (List.mem_cons_of_mem _ hmem)
    · rcases Entries.mem_toList_of_mem_insert hmem with rfl | hmem
      · exact Or.inl List.mem_cons_self
      · exact Or.inr hmem

/-- Pairs in ascending order of their keys stay in place. -/
theorem toList_ofList {pairs : List (String × α)}
    (h : pairs.Pairwise fun a b => a.1 < b.1) : (ofList pairs).toList = pairs := by
  have hnodup : (pairs.map Prod.fst).Nodup :=
    List.pairwise_map.2 (h.imp String.ne_of_lt)
  refine List.Perm.eq_of_pairwise (fun a b _ _ hab hba => ?_)
    (ofList pairs).entries.pairwise_toList h (perm_ofList hnodup)
  exact absurd (String.lt_trans hab hba) (String.lt_irrefl _)

end Bag

end PhpTree
