import PhpTree.Proofs.Json.Tokens

/-!
# The reader is right

The reader reads a text as a value exactly if the text stands for it (`read_eq_some_iff`); in
particular whatever it reads is derivable. Both directions are inductions on the fuel, of which the
number of characters is always enough.
-/

namespace PhpTree.Json

open Grammar (IsBlank)

/-! ## What is read stands there -/

/-- All that is read with so much fuel stands in the text. -/
structure SoundAt (fuel : Nat) : Prop where
  value : ∀ {cs rest : List Char} {x : Json}, readValue fuel cs = some (x, rest) → ValueOf cs x rest
  items : ∀ {cs rest : List Char} {xs : List Json},
    readItems fuel cs = some (xs, rest) → ItemsOf cs xs rest
  member : ∀ {cs rest : List Char} {m : String × Json},
    readMember fuel cs = some (m, rest) → MemberOf cs m rest
  members : ∀ {cs rest : List Char} {ms : List (String × Json)},
    readMembers fuel cs = some (ms, rest) → MembersOf cs ms rest

theorem blanks_of_skipBlanks_eq {cs ds : List Char} (h : skipBlanks cs = ds) : Blanks cs ds :=
  h ▸ blanks_skipBlanks cs

namespace SoundAt

variable {fuel : Nat}

theorem value_succ (ih : SoundAt fuel) {cs rest : List Char} {x : Json}
    (h : readValue (fuel + 1) cs = some (x, rest)) : ValueOf cs x rest := by
  cases cs with
  | nil => cases h
  | cons c cs =>
    unfold readValue at h
    split at h
    · split at h
      · cases h
        exact .null
      · cases h
    · split at h
      · cases h
        exact .true
      · cases h
    · split at h
      · cases h
        exact .false
      · cases h
    · obtain ⟨r, hr, he⟩ := Option.map_eq_some_iff.1 h
      cases he
      exact .str (readChars_sound hr)
    · split at h
      · next hclose =>
        cases h
        exact .emptyArr (blanks_of_skipBlanks_eq hclose)
      · obtain ⟨r, hr, he⟩ := Option.map_eq_some_iff.1 h
        cases he
        exact .arr (blanks_skipBlanks cs) (ih.items hr)
    · split at h
      · next hclose =>
        cases h
        exact .emptyObj (blanks_of_skipBlanks_eq hclose)
      · obtain ⟨r, hr, he⟩ := Option.map_eq_some_iff.1 h
        cases he
        exact .obj (blanks_skipBlanks cs) (ih.members hr)
    · obtain ⟨r, hr, he⟩ := Option.map_eq_some_iff.1 h
      obtain ⟨hcs, hnumber⟩ := readNumber_sound hr
      cases he
      rw [hcs]
      exact .num hnumber

theorem items_succ (ih : SoundAt fuel) {cs rest : List Char} {xs : List Json}
    (h : readItems (fuel + 1) cs = some (xs, rest)) : ItemsOf cs xs rest := by
  unfold readItems at h
  split at h
  · next hx =>
    split at h
    · next hclose =>
      cases h
      exact .last (ih.value hx) (blanks_of_skipBlanks_eq hclose)
    · next hcomma =>
      obtain ⟨r, hr, he⟩ := Option.map_eq_some_iff.1 h
      cases he
      exact .cons (ih.value hx) (blanks_of_skipBlanks_eq hcomma) (blanks_skipBlanks _)
        (ih.items hr)
    · cases h
  · cases h

theorem member_succ (ih : SoundAt fuel) {cs rest : List Char} {m : String × Json}
    (h : readMember (fuel + 1) cs = some (m, rest)) : MemberOf cs m rest := by
  unfold readMember at h
  split at h
  · split at h
    · next hkey =>
      split at h
      · next hcolon =>
        obtain ⟨r, hr, he⟩ := Option.map_eq_some_iff.1 h
        cases he
        exact .mk (readChars_sound hkey) (blanks_of_skipBlanks_eq hcolon) (blanks_skipBlanks _)
          (ih.value hr)
      · cases h
    · cases h
  · cases h

theorem members_succ (ih : SoundAt fuel) {cs rest : List Char} {ms : List (String × Json)}
    (h : readMembers (fuel + 1) cs = some (ms, rest)) : MembersOf cs ms rest := by
  unfold readMembers at h
  split at h
  · next hm =>
    split at h
    · next hclose =>
      cases h
      exact .last (ih.member hm) (blanks_of_skipBlanks_eq hclose)
    · next hcomma =>
      obtain ⟨r, hr, he⟩ := Option.map_eq_some_iff.1 h
      cases he
      exact .cons (ih.member hm) (blanks_of_skipBlanks_eq hcomma) (blanks_skipBlanks _)
        (ih.members hr)
    · cases h
  · cases h

end SoundAt

theorem soundAt (fuel : Nat) : SoundAt fuel := by
  induction fuel with
  | zero =>
    refine ⟨fun {cs _ _} h => ?_, fun h => (nomatch h), fun h => (nomatch h), fun h => (nomatch h)⟩
    cases cs <;> cases h
  | succ fuel ih => exact ⟨ih.value_succ, ih.items_succ, ih.member_succ, ih.members_succ⟩

/-! ## What stands there is read -/

mutual

theorem ValueOf.length_lt : ∀ {cs rest : List Char} {x : Json}, ValueOf cs x rest →
    rest.length < cs.length
  | _, _, _, .null | _, _, _, .true | _, _, _, .false => by
    simp only [List.length_cons]
    omega
  | _, _, _, .num h => by
    obtain ⟨c, cs, rfl, -⟩ := exists_head_of_number h
    simp only [List.length_append, List.length_cons]
    omega
  | _, _, _, .str h => Nat.lt_succ_of_lt h.length_lt
  | _, _, _, .emptyArr h | _, _, _, .emptyObj h => by
    have := h.length_le
    simp only [List.length_cons] at this ⊢
    omega
  | _, _, _, .arr hb hxs => by
    have := hb.length_le
    have := hxs.length_lt
    simp only [List.length_cons]
    omega
  | _, _, _, .obj hb hms => by
    have := hb.length_le
    have := hms.length_lt
    simp only [List.length_cons]
    omega

theorem ItemsOf.length_lt : ∀ {cs rest : List Char} {xs : List Json}, ItemsOf cs xs rest →
    rest.length < cs.length
  | _, _, _, .last hx hb => by
    have := hx.length_lt
    have := hb.length_le
    simp only [List.length_cons] at this
    omega
  | _, _, _, .cons hx hb hb' hxs => by
    have := hx.length_lt
    have := hb.length_le
    have := hb'.length_le
    have := hxs.length_lt
    simp only [List.length_cons] at *
    omega

theorem MemberOf.length_lt : ∀ {cs rest : List Char} {m : String × Json}, MemberOf cs m rest →
    rest.length < cs.length
  | _, _, _, .mk hkey hb hb' hx => by
    have := hkey.length_lt
    have := hb.length_le
    have := hb'.length_le
    have := hx.length_lt
    simp only [List.length_cons] at *
    omega

theorem MembersOf.length_lt : ∀ {cs rest : List Char} {ms : List (String × Json)},
    MembersOf cs ms rest → rest.length < cs.length
  | _, _, _, .last hm hb => by
    have := hm.length_lt
    have := hb.length_le
    simp only [List.length_cons] at this
    omega
  | _, _, _, .cons hm hb hb' hms => by
    have := hm.length_lt
    have := hb.length_le
    have := hb'.length_le
    have := hms.length_lt
    simp only [List.length_cons] at *
    omega

end

/-- A value begins with neither a blank nor a closing bracket. -/
theorem ValueOf.exists_head {cs rest : List Char} {x : Json} (h : ValueOf cs x rest) :
    ∃ c tail, cs = c :: tail ∧ ¬ IsBlank c ∧ c ≠ ']' := by
  cases h with
  | num hn =>
    obtain ⟨c, cs, rfl, hc⟩ := exists_head_of_number hn
    refine ⟨c, _, rfl, ?_⟩
    rcases hc with rfl | hc
    · decide
    · refine ⟨fun hb => ?_, fun he => ?_⟩
      · rcases hb with rfl | rfl | rfl | rfl <;> exact absurd hc (by decide)
      · subst he
        exact absurd hc (by decide)
  | _ => exact ⟨_, _, rfl, by decide, by decide⟩

theorem ItemsOf.exists_head {cs rest : List Char} {xs : List Json} (h : ItemsOf cs xs rest) :
    ∃ c tail, cs = c :: tail ∧ ¬ IsBlank c ∧ c ≠ ']' := by
  cases h with
  | last hx _ => exact hx.exists_head
  | cons hx _ _ _ => exact hx.exists_head

theorem MembersOf.exists_head {cs rest : List Char} {ms : List (String × Json)}
    (h : MembersOf cs ms rest) : ∃ tail, cs = '"' :: tail := by
  cases h with
  | last hm _ =>
    cases hm
    exact ⟨_, rfl⟩
  | cons hm _ _ _ =>
    cases hm
    exact ⟨_, rfl⟩

/-- All that stands in a text is read if there is fuel for its characters. -/
structure CompleteAt (fuel : Nat) : Prop where
  value : ∀ {cs rest : List Char} {x : Json}, ValueOf cs x rest → NumberEnds rest →
    cs.length ≤ fuel + rest.length → readValue fuel cs = some (x, rest)
  items : ∀ {cs rest : List Char} {xs : List Json}, ItemsOf cs xs rest →
    cs.length ≤ fuel + rest.length → readItems fuel cs = some (xs, rest)
  member : ∀ {cs rest : List Char} {m : String × Json}, MemberOf cs m rest → NumberEnds rest →
    cs.length ≤ fuel + rest.length → readMember fuel cs = some (m, rest)
  members : ∀ {cs rest : List Char} {ms : List (String × Json)}, MembersOf cs ms rest →
    cs.length ≤ fuel + rest.length → readMembers fuel cs = some (ms, rest)

namespace CompleteAt

variable {fuel : Nat}

theorem value_succ (ih : CompleteAt fuel) {cs rest : List Char} {x : Json} (h : ValueOf cs x rest)
    (hends : NumberEnds rest) (hfuel : cs.length ≤ fuel + 1 + rest.length) :
    readValue (fuel + 1) cs = some (x, rest) := by
  cases h with
  | null => rfl
  | true => rfl
  | false => rfl
  | num hn =>
    have hread := readNumber_complete hn hends
    obtain ⟨c, tail, rfl, hc⟩ := exists_head_of_number hn
    rw [List.cons_append] at hread ⊢
    unfold readValue
    -- A number begins with a minus or a digit, so no other kind of value is tried.
    split
    case h_7 => rw [hread, Option.map_some]
    all_goals exact absurd hc (by decide)
  | str hs =>
    simp only [readValue, readChars_complete hs (Nat.le_refl _), Option.map_some]
  | emptyArr hb =>
    simp only [readValue, hb.skipBlanks_cons (by decide)]
  | @arr cs ds _ xs hb hxs =>
    -- The bracket pays for the fuel of the call, and the items do not begin like an empty array.
    obtain ⟨c, tail, rfl, hblank, hclose⟩ := hxs.exists_head
    have hlen := hb.length_le
    have hrec : readItems fuel (c :: tail) = some (xs, rest) := by
      apply ih.items hxs
      simp only [List.length_cons] at hfuel hlen ⊢
      omega
    unfold readValue
    simp only [hb.skipBlanks_cons hblank]
    split
    · next he => exact absurd (List.cons.inj he).1 hclose
    · rw [hrec, Option.map_some]
  | emptyObj hb =>
    simp only [readValue, hb.skipBlanks_cons (by decide)]
  | @obj cs ds _ ms hb hms =>
    obtain ⟨tail, rfl⟩ := hms.exists_head
    have hlen := hb.length_le
    have hrec : readMembers fuel ('"' :: tail) = some (ms, rest) := by
      apply ih.members hms
      simp only [List.length_cons] at hfuel hlen ⊢
      omega
    unfold readValue
    simp only [hb.skipBlanks_cons (by decide)]
    split
    · next he => exact absurd (List.cons.inj he).1 (by decide)
    · rw [hrec, Option.map_some]

theorem items_succ (ih : CompleteAt fuel) {cs rest : List Char} {xs : List Json}
    (h : ItemsOf cs xs rest) (hfuel : cs.length ≤ fuel + 1 + rest.length) :
    readItems (fuel + 1) cs = some (xs, rest) := by
  cases h with
  | @last _ ds _ x hx hb =>
    have hlen := hb.length_le
    have hread : readValue fuel cs = some (x, ds) := by
      apply ih.value hx (hb.numberEnds (by simp))
      simp only [List.length_cons] at hlen
      omega
    simp only [readItems, hread, hb.skipBlanks_cons (by decide)]
  | @cons _ ds es fs _ x xs hx hb hb' hxs =>
    obtain ⟨c, tail, rfl, hblank, -⟩ := hxs.exists_head
    have hlen := hb.length_le
    have hlen' := hb'.length_le
    have hlt := hx.length_lt
    have hlt' := hxs.length_lt
    simp only [List.length_cons] at hlen hlen' hlt'
    have hread : readValue fuel cs = some (x, ds) :=
      ih.value hx (hb.numberEnds (by simp)) (by omega)
    have hrec : readItems fuel (c :: tail) = some (xs, rest) := by
      apply ih.items hxs
      simp only [List.length_cons]
      omega
    simp only [readItems, hread, hb.skipBlanks_cons (by decide), hb'.skipBlanks_cons hblank, hrec,
      Option.map_some]

theorem member_succ (ih : CompleteAt fuel) {cs rest : List Char} {m : String × Json}
    (h : MemberOf cs m rest) (hends : NumberEnds rest)
    (hfuel : cs.length ≤ fuel + 1 + rest.length) :
    readMember (fuel + 1) cs = some (m, rest) := by
  cases h with
  | @mk cs ds es fs key _ x hkey hb hb' hx =>
    obtain ⟨c, tail, rfl, hblank, -⟩ := hx.exists_head
    have hlen := hb.length_le
    have hlen' := hb'.length_le
    have hlt := hkey.length_lt
    simp only [List.length_cons] at hfuel hlen hlen'
    have hread : readValue fuel (c :: tail) = some (x, rest) := by
      apply ih.value hx hends
      simp only [List.length_cons]
      omega
    simp only [readMember, readChars_complete hkey (Nat.le_refl _), hb.skipBlanks_cons (by decide),
      hb'.skipBlanks_cons hblank, hread, Option.map_some]

theorem members_succ (ih : CompleteAt fuel) {cs rest : List Char} {ms : List (String × Json)}
    (h : MembersOf cs ms rest) (hfuel : cs.length ≤ fuel + 1 + rest.length) :
    readMembers (fuel + 1) cs = some (ms, rest) := by
  cases h with
  | @last _ ds _ m hm hb =>
    have hlen := hb.length_le
    have hread : readMember fuel cs = some (m, ds) := by
      apply ih.member hm (hb.numberEnds (by simp))
      simp only [List.length_cons] at hlen
      omega
    simp only [readMembers, hread, hb.skipBlanks_cons (by decide)]
  | @cons _ ds es fs _ m ms hm hb hb' hms =>
    obtain ⟨tail, rfl⟩ := hms.exists_head
    have hlen := hb.length_le
    have hlen' := hb'.length_le
    have hlt := hm.length_lt
    have hlt' := hms.length_lt
    simp only [List.length_cons] at hlen hlen' hlt'
    have hread : readMember fuel cs = some (m, ds) :=
      ih.member hm (hb.numberEnds (by simp)) (by omega)
    have hrec : readMembers fuel ('"' :: tail) = some (ms, rest) := by
      apply ih.members hms
      simp only [List.length_cons]
      omega
    simp only [readMembers, hread, hb.skipBlanks_cons (by decide), hb'.skipBlanks_cons (by decide),
      hrec, Option.map_some]

end CompleteAt

theorem completeAt (fuel : Nat) : CompleteAt fuel := by
  induction fuel with
  | zero =>
    refine ⟨fun h _ hfuel => ?_, fun h hfuel => ?_, fun h _ hfuel => ?_, fun h hfuel => ?_⟩
    all_goals
      have := h.length_lt
      omega
  | succ fuel ih => exact ⟨ih.value_succ, ih.items_succ, ih.member_succ, ih.members_succ⟩

/-! ## Whole texts -/

theorem readText_eq_some_iff {cs : List Char} {x : Json} : readText cs = some x ↔ TextOf cs x := by
  constructor
  · intro h
    unfold readText at h
    split at h
    · next hx =>
      split at h
      · next hrest =>
        cases h
        exact .mk (blanks_skipBlanks cs) ((soundAt _).value hx) (blanks_of_skipBlanks_eq hrest)
      · cases h
    · cases h
  · rintro ⟨hbefore, hx, hafter⟩
    obtain ⟨c, tail, rfl, hblank, -⟩ := hx.exists_head
    have hlen := hbefore.length_le
    have hends : ∀ rest : List Char, Blanks rest [] → NumberEnds rest := by
      intro rest hrest
      cases hrest with
      | nil => exact fun _ h => (nomatch h)
      | cons hb _ =>
        rintro d ⟨⟩
        rcases hb with rfl | rfl | rfl | rfl <;> decide
    have hread := (completeAt cs.length).value hx (hends _ hafter) (by omega)
    have hrest : skipBlanks _ = [] := hafter.skipBlanks_eq
    simp only [readText, hbefore.skipBlanks_cons hblank, hread, hrest, if_true]

/-- A text is read as a value exactly if it stands for it. -/
theorem read_eq_some_iff {text : String} {x : Json} :
    read text = some x ↔ TextOf text.toList x :=
  readText_eq_some_iff

end PhpTree.Json
