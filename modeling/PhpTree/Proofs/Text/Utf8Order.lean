/-!
# The order of strings is the order of their bytes

Keys ascend by code point. The UTF-8 encoding of a character starts with a byte that grows with the
length of the encoding, and encodings of one length compare like the code points they spread over
their bytes. So strings compare like their encodings, byte by byte.
-/

namespace PhpTree

/-- The bytes of a string in UTF-8. -/
def utf8Bytes (s : String) : List UInt8 :=
  s.toByteArray.data.toList

theorem utf8Bytes_eq_flatMap (s : String) :
    utf8Bytes s = s.toList.flatMap String.utf8EncodeChar := by
  have h : (String.ofList s.toList).toByteArray = s.toList.utf8Encode := String.toByteArray_ofList
  rw [String.ofList_toList] at h
  rw [utf8Bytes, h, List.utf8Encode, List.toList_data_toByteArray]

/-! ## Characters -/

theorem ofNat_cons_lt {a b : Nat} {cs ds : List UInt8} (hb : b < 256) (hle : a ≤ b)
    (h : a = b → cs < ds) : UInt8.ofNat a :: cs < UInt8.ofNat b :: ds := by
  rw [List.cons_lt_cons_iff]
  rcases Nat.lt_or_eq_of_le hle with hlt | heq
  · refine Or.inl (UInt8.lt_iff_toNat_lt.2 ?_)
    rw [UInt8.toNat_ofNat', UInt8.toNat_ofNat']
    omega
  · exact Or.inr ⟨heq ▸ rfl, h heq⟩

/-- The encoding of a smaller character is less, whatever follows. -/
theorem utf8EncodeChar_append_lt {c d : Char} (h : c < d) (cs ds : List UInt8) :
    String.utf8EncodeChar c ++ cs < String.utf8EncodeChar d ++ ds := by
  have hlt : c.val.toNat < d.val.toNat := h
  have hmax : d.val.toNat ≤ 0x10ffff := by
    rcases d.valid with hd | hd <;> omega
  unfold String.utf8EncodeChar
  generalize c.val.toNat = v at hlt ⊢
  generalize d.val.toNat = w at hlt hmax ⊢
  dsimp only
  -- Encodings of different lengths differ in their first byte, others in the first byte at which
  -- the code points differ.
  by_cases hv1 : v ≤ 0x7f
  · rw [if_pos hv1]
    repeat' split
    all_goals exact ofNat_cons_lt (by omega) (by omega) fun _ => by omega
  rw [if_neg hv1, if_neg (show ¬ w ≤ 0x7f by omega)]
  by_cases hv2 : v ≤ 0x7ff
  · rw [if_pos hv2]
    split
    · refine ofNat_cons_lt (by omega) (by omega) fun _ => ?_
      exact ofNat_cons_lt (by omega) (by omega) fun _ => by omega
    all_goals
      split
      all_goals exact ofNat_cons_lt (by omega) (by omega) fun _ => by omega
  rw [if_neg hv2, if_neg (show ¬ w ≤ 0x7ff by omega)]
  by_cases hv3 : v ≤ 0xffff
  · rw [if_pos hv3]
    split
    · refine ofNat_cons_lt (by omega) (by omega) fun _ => ?_
      refine ofNat_cons_lt (by omega) (by omega) fun _ => ?_
      exact ofNat_cons_lt (by omega) (by omega) fun _ => by omega
    · exact ofNat_cons_lt (by omega) (by omega) fun _ => by omega
  rw [if_neg hv3, if_neg (show ¬ w ≤ 0xffff by omega)]
  refine ofNat_cons_lt (by omega) (by omega) fun _ => ?_
  refine ofNat_cons_lt (by omega) (by omega) fun _ => ?_
  refine ofNat_cons_lt (by omega) (by omega) fun _ => ?_
  exact ofNat_cons_lt (by omega) (by omega) fun _ => by omega

/-! ## Strings -/

theorem flatMap_utf8EncodeChar_lt {cs ds : List Char} (h : cs < ds) :
    cs.flatMap String.utf8EncodeChar < ds.flatMap String.utf8EncodeChar := by
  induction h with
  | @nil d ds =>
    rw [List.flatMap_nil, List.flatMap_cons]
    cases henc : String.utf8EncodeChar d with
    | nil => exact absurd henc String.utf8EncodeChar_ne_nil
    | cons b bs => exact List.nil_lt_cons b _
  | @rel c cs d ds hcd =>
    rw [List.flatMap_cons, List.flatMap_cons]
    exact utf8EncodeChar_append_lt hcd _ _
  | @cons c cs ds _ ih =>
    rw [List.flatMap_cons, List.flatMap_cons]
    exact List.append_left_lt ih

/-- Strings compare like their UTF-8 bytes. -/
theorem utf8Bytes_lt {s t : String} (h : s < t) : utf8Bytes s < utf8Bytes t := by
  rw [utf8Bytes_eq_flatMap, utf8Bytes_eq_flatMap]
  exact flatMap_utf8EncodeChar_lt h

end PhpTree
