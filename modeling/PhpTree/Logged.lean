import PhpTree.Fault

/-!
# Logged computations

Operations that reject an input or edit a doc comment report a message when they do. A `Logged`
value carries the messages reported on the way, oldest first; an `Attempt` may be refused as well,
and keeps the messages reported up to that point.
-/

namespace PhpTree

/-- What an operation reports. -/
inductive Message where
  /-- A name was asked for with no part at all. -/
  | emptyPartList
  /-- A value that is neither a string, a list of strings nor a name was read as a name. -/
  | unsupportedInput
  /-- A slice argument was outside the parts of the name. -/
  | sliceOutOfBounds (bound : SliceBound) (value : Int) (name : String)
  /-- The trailing doc comment makes room for the new one. -/
  | replacingDocComment
  /-- A doc comment goes behind so many comments. -/
  | appendingDocComment (count : Nat)
  /-- The attribute for comments held something else, which is dropped. -/
  | overwritingComments
deriving DecidableEq, Repr

/-- How much a message matters. -/
inductive Message.Level where
  | debug
  | trace
deriving DecidableEq, Repr

namespace Message

/-- Rejected inputs are of interest when debugging, edits of doc comments only in a trace. -/
def level : Message → Level
  | .emptyPartList | .unsupportedInput | .sliceOutOfBounds .. => .debug
  | .replacingDocComment | .appendingDocComment _ | .overwritingComments => .trace

/-- The wording of a message. -/
def text : Message → String
  | .emptyPartList => "rejecting empty name part list"
  | .unsupportedInput =>
    "rejecting name input that is neither a string, a part list nor a name"
  | .sliceOutOfBounds .offset value name =>
    "slice offset " ++ toString value ++ " out of bounds for `" ++ name ++ "`"
  | .sliceOutOfBounds .length value name =>
    "slice length " ++ toString value ++ " out of bounds for `" ++ name ++ "`"
  | .replacingDocComment => "replacing trailing doc comment"
  | .appendingDocComment count => "appending doc comment after " ++ toString count ++ " comment(s)"
  | .overwritingComments => "overwriting non-comment `comments` attribute"

/-- The line of a message in the log: its level, then its wording. -/
def line (m : Message) : String :=
  match m.level with
  | .debug => "DEBUG " ++ m.text
  | .trace => "TRACE " ++ m.text

end Message

/-- A value and the messages reported while it was computed, oldest first. -/
structure Logged (α : Type) where
  value : α
  log : List Message

namespace Logged

instance : Monad Logged where
  pure a := ⟨a, []⟩
  bind x f := ⟨(f x.value).value, x.log ++ (f x.value).log⟩

instance : LawfulMonad Logged :=
  LawfulMonad.mk' Logged (fun x => by simp [Functor.map])
    (fun a f => by simp [bind, pure])
    (fun x f g => by simp [bind])

/-- Reports one message. -/
def report (m : Message) : Logged Unit :=
  ⟨(), [m]⟩

end Logged

/-- A computation that may be refused. -/
abbrev Attempt (α : Type) : Type :=
  ExceptT Fault Logged α

namespace Attempt

variable {α : Type}

/-- Reports `m` and gives up with `fault`. -/
def refuse (fault : Fault) (m : Message) : Attempt α :=
  ExceptT.mk ⟨.error fault, [m]⟩

/-- How the computation ends, its messages left aside. -/
def result (x : Attempt α) : Except Fault α :=
  x.run.value

/-- The messages reported, oldest first. -/
def log (x : Attempt α) : List Message :=
  x.run.log

@[simp] theorem result_pure (a : α) : (pure a : Attempt α).result = .ok a :=
  rfl

@[simp] theorem log_pure (a : α) : (pure a : Attempt α).log = [] :=
  rfl

@[simp] theorem result_refuse (fault : Fault) (m : Message) :
    (refuse fault m : Attempt α).result = .error fault :=
  rfl

@[simp] theorem log_refuse (fault : Fault) (m : Message) :
    (refuse fault m : Attempt α).log = [m] :=
  rfl

/-- What follows a refusal does not happen. -/
theorem result_bind {β : Type} (x : Attempt α) (f : α → Attempt β) :
    (x >>= f).result = x.result >>= fun a => (f a).result := by
  rcases x with ⟨_ | _, _⟩ <;> rfl

/-- What ends well was reached by computations that end well. -/
theorem exists_of_result_bind_eq_ok {β : Type} {x : Attempt α} {f : α → Attempt β} {b : β}
    (h : (x >>= f).result = .ok b) : ∃ a, x.result = .ok a ∧ (f a).result = .ok b := by
  rw [result_bind] at h
  cases hx : x.result with
  | error fault =>
    rw [hx] at h
    cases h
  | ok a =>
    rw [hx] at h
    exact ⟨a, rfl, h⟩

theorem result_map {β : Type} (f : α → β) (x : Attempt α) :
    (f <$> x).result = f <$> x.result := by
  rcases x with ⟨_ | _, _⟩ <;> rfl

/-- What follows a refusal reports nothing. -/
theorem log_bind {β : Type} (x : Attempt α) (f : α → Attempt β) :
    (x >>= f).log = x.log ++ x.result.toOption.elim [] fun a => (f a).log := by
  rcases x with ⟨_ | _, _⟩ <;> rfl

end Attempt

end PhpTree
