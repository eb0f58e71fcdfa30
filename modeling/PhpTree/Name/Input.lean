import PhpTree.Name.Basic
import PhpTree.Logged

/-!
# Building names

A name can be built from a text, from a list of parts, or from another name, of which only the
text is taken. Passes that keep names loosely store any of these shapes as an attribute value,
which `NameInput.ofValue` reads back. An empty list of parts is no name.
-/

namespace PhpTree

/-- What a name can be built from. -/
inductive NameInput where
  | text (s : String)
  | parts (ps : List String)
  | name (x : Name)

namespace NameInput

/-- The text of the name that is built from an input. -/
def prepare : NameInput → Attempt String
  | .text s => return s
  | .name x => return x.text
  | .parts [] => Attempt.refuse Fault.emptyPartList .emptyPartList
  | .parts ps => return Name.joinParts ps

/-- The strings in a list of values, if there is nothing else in it. -/
def strings? : List Value → Option (List String)
  | [] => some []
  | v :: vs =>
    match v.str?, strings? vs with
    | some s, some ss => some (s :: ss)
    | _, _ => none

/-- Refuses a value that no name can be built from. -/
def refuseValue {α : Type} : Attempt α :=
  Attempt.refuse Fault.unsupportedInput .unsupportedInput

/-- Reads an attribute value as something that a name can be built from. An empty list passes here
and is refused later. -/
def ofValue : Value → Attempt NameInput
  | .str s => return .text s
  | .name x => return .name x
  | .list items =>
    match strings? items with
    | some ps => return .parts ps
    | none => refuseValue
  | _ => refuseValue

end NameInput

/-- The name of kind `kind` that is built from `input`. -/
def Name.build (kind : NameKind) (input : NameInput) (attributes : Attributes) : Attempt Name := do
  let text ← input.prepare
  return { text := text, kind := kind, attributes := attributes }

/-- Joins two names to one of this kind. Of the operands only the texts count. A missing operand is
the identity: the other one is built again with this kind, and two missing operands make no name. -/
def NameKind.concat (kind : NameKind) (a b : Option NameInput) (attributes : Attributes) :
    Attempt (Option Name) :=
  match a, b with
  | none, none => return none
  | some a, none => some <$> Name.build kind a attributes
  | none, some b => some <$> Name.build kind b attributes
  | some a, some b => do
    let s ← a.prepare
    let t ← b.prepare
    return some { text := Name.joinTexts s t, kind := kind, attributes := attributes }

/-- Joins two names to a plain one. -/
def Name.concat (a b : Option NameInput) (attributes : Attributes) : Attempt (Option Name) :=
  NameKind.plain.concat a b attributes

end PhpTree
