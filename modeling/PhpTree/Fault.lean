/-!
# Faults

Why an operation on names or nodes is refused. Each fault carries what its message needs, and
`Fault.message` holds all the wording.
-/

namespace PhpTree

/-- The argument of a slice that falls outside the parts of the name. -/
inductive SliceBound where
  | offset
  | length
deriving DecidableEq, Repr

/-- The word that messages use for the argument. -/
def SliceBound.label : SliceBound → String
  | .offset => "Offset"
  | .length => "Length"

/-- Why an operation is refused. -/
inductive Fault where
  /-- A slice argument, as the caller passed it, is outside the parts of the name. -/
  | outOfBounds (bound : SliceBound) (value : Int)
  /-- An argument of a shape that the operation does not take. -/
  | invalidArgument (detail : String)
  /-- A dump that could not be written. -/
  | dump (detail : String)
deriving DecidableEq, Repr

namespace Fault

/-- A name needs at least one part. -/
def emptyPartList : Fault :=
  .invalidArgument "Name part array cannot be empty"

/-- Only a string, a list of strings and a name can be read as a name. -/
def unsupportedInput : Fault :=
  .invalidArgument "Expected string, part list or Name node"

/-- The text shown for a fault. -/
def message : Fault → String
  | .outOfBounds bound value => bound.label ++ " " ++ toString value ++ " is out of bounds"
  | .invalidArgument detail => "Invalid argument: " ++ detail
  | .dump detail => "JSON error: " ++ detail

def isOutOfBounds : Fault → Bool
  | .outOfBounds .. => true
  | _ => false

def isInvalidArgument : Fault → Bool
  | .invalidArgument _ => true
  | _ => false

end Fault

end PhpTree
