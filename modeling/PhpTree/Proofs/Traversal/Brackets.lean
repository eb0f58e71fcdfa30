/-!
# Balanced brackets

Sequences of labelled brackets. They are balanced when every opening bracket is closed by one with
the same label, with balanced brackets in between, and no closing bracket is left over.
-/

namespace PhpTree

/-- One bracket of a pair, with a label. -/
inductive Bracket (β : Type) where
  | opening (b : β)
  | closing (b : β)

namespace Bracket

variable {β γ : Type}

/-- The bracket with another label. -/
def map (f : β → γ) : Bracket β → Bracket γ
  | opening b => opening (f b)
  | closing b => closing (f b)

def opening? : Bracket β → Option β
  | opening b => some b
  | closing _ => none

def closing? : Bracket β → Option β
  | opening _ => none
  | closing b => some b

/-- The labels of the opening brackets, in order. -/
def openings (bs : List (Bracket β)) : List β :=
  bs.filterMap opening?

/-- The labels of the closing brackets, in order. -/
def closings (bs : List (Bracket β)) : List β :=
  bs.filterMap closing?

@[simp] theorem openings_nil : openings ([] : List (Bracket β)) = [] :=
  rfl

@[simp] theorem openings_opening_cons (b : β) (bs : List (Bracket β)) :
    openings (opening b :: bs) = b :: openings bs :=
  rfl

@[simp] theorem openings_closing_cons (b : β) (bs : List (Bracket β)) :
    openings (closing b :: bs) = openings bs :=
  rfl

@[simp] theorem openings_append (bs cs : List (Bracket β)) :
    openings (bs ++ cs) = openings bs ++ openings cs :=
  List.filterMap_append

@[simp] theorem openings_map (f : β → γ) (bs : List (Bracket β)) :
    openings (bs.map (map f)) = (openings bs).map f := by
  induction bs with
  | nil => rfl
  | cons b bs ih => cases b <;> simp [map, ih]

@[simp] theorem closings_opening_cons (b : β) (bs : List (Bracket β)) :
    closings (opening b :: bs) = closings bs :=
  rfl

@[simp] theorem closings_closing_cons (b : β) (bs : List (Bracket β)) :
    closings (closing b :: bs) = b :: closings bs :=
  rfl

@[simp] theorem closings_append (bs cs : List (Bracket β)) :
    closings (bs ++ cs) = closings bs ++ closings cs :=
  List.filterMap_append

/-- The next bracket, if there is one, is not an opening one. -/
def NothingOpens : List (Bracket β) → Prop
  | opening _ :: _ => False
  | _ => True

theorem nothingOpens_nil : NothingOpens ([] : List (Bracket β)) :=
  True.intro

theorem nothingOpens_closing_cons (b : β) (bs : List (Bracket β)) :
    NothingOpens (closing b :: bs) :=
  True.intro

/-- Every opening bracket is closed by one with its label, and nothing else is closed. -/
inductive Balanced : List (Bracket β) → Prop
  | nil : Balanced []
  | pair (b : β) {inner rest : List (Bracket β)} : Balanced inner → Balanced rest →
      Balanced (opening b :: (inner ++ closing b :: rest))

namespace Balanced

variable {bs cs : List (Bracket β)}

theorem append (hb : Balanced bs) (hc : Balanced cs) : Balanced (bs ++ cs) := by
  induction hb with
  | nil => exact hc
  | pair b hinner _ _ ih =>
    have h := Balanced.pair b hinner ih
    simpa only [List.cons_append, List.append_assoc] using h

theorem map (f : β → γ) (h : Balanced bs) : Balanced (bs.map (Bracket.map f)) := by
  induction h with
  | nil => exact Balanced.nil
  | pair b _ _ ihinner ihrest =>
    have h := Balanced.pair (f b) ihinner ihrest
    simpa only [List.map_cons, List.map_append, Bracket.map] using h

/-- What is closed is what was opened. -/
theorem closings_perm (h : Balanced bs) : (closings bs).Perm (openings bs) := by
  induction h with
  | nil => exact List.Perm.refl []
  | pair b _ _ ihinner ihrest =>
    simp only [closings_opening_cons, closings_append, closings_closing_cons,
      openings_opening_cons, openings_append, openings_closing_cons]
    exact List.perm_middle.trans ((ihinner.append ihrest).cons b)

end Balanced

end Bracket

end PhpTree
