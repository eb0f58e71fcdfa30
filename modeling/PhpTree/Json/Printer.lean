import PhpTree.Json.Basic
import PhpTree.Json.Quoted

/-!
# JSON texts

Two layouts of a JSON value. The compact one has no blank outside of strings. The indented one
gives every item and every member a line of its own, two blanks deeper than its container; empty
containers stay on their line.
-/

namespace PhpTree.Json

/-! ## The compact layout -/

mutual

/-- The compact text of a value. -/
def compactChars : Json → List Char
  | .null => ['n', 'u', 'l', 'l']
  | .bool true => ['t', 'r', 'u', 'e']
  | .bool false => ['f', 'a', 'l', 's', 'e']
  | .num literal => literal.toList
  | .str s => quote s
  | .arr [] => ['[', ']']
  | .arr (x :: xs) => '[' :: (compactChars x ++ compactItems xs)
  | .obj [] => ['\x7b', '\x7d']
  | .obj ((key, x) :: rest) =>
    '\x7b' :: (quote key ++ ':' :: (compactChars x ++ compactMembers rest))

/-- The items behind the first one, and the end of the array. -/
def compactItems : List Json → List Char
  | [] => [']']
  | x :: xs => ',' :: (compactChars x ++ compactItems xs)

/-- The members behind the first one, and the end of the object. -/
def compactMembers : List (String × Json) → List Char
  | [] => ['\x7d']
  | (key, x) :: rest => ',' :: (quote key ++ ':' :: (compactChars x ++ compactMembers rest))

end

/-! ## The indented layout -/

/-- The end of a line and the indentation of the next one, at a depth of containers. -/
def newline (depth : Nat) : List Char :=
  '\n' :: List.replicate (2 * depth) ' '

mutual

/-- The indented text of a value in so many containers. -/
def prettyChars (depth : Nat) : Json → List Char
  | .null => ['n', 'u', 'l', 'l']
  | .bool true => ['t', 'r', 'u', 'e']
  | .bool false => ['f', 'a', 'l', 's', 'e']
  | .num literal => literal.toList
  | .str s => quote s
  | .arr [] => ['[', ']']
  | .arr (x :: xs) =>
    '[' :: (newline (depth + 1) ++ prettyChars (depth + 1) x ++ prettyItems depth xs)
  | .obj [] => ['\x7b', '\x7d']
  | .obj ((key, x) :: rest) =>
    '\x7b' :: (newline (depth + 1) ++ quote key ++ ':' :: ' ' ::
      (prettyChars (depth + 1) x ++ prettyMembers depth rest))

/-- The items behind the first one, and the end of the array. -/
def prettyItems (depth : Nat) : List Json → List Char
  | [] => newline depth ++ [']']
  | x :: xs =>
    ',' :: (newline (depth + 1) ++ prettyChars (depth + 1) x ++ prettyItems depth xs)

/-- The members behind the first one, and the end of the object. -/
def prettyMembers (depth : Nat) : List (String × Json) → List Char
  | [] => newline depth ++ ['\x7d']
  | (key, x) :: rest =>
    ',' :: (newline (depth + 1) ++ quote key ++ ':' :: ' ' ::
      (prettyChars (depth + 1) x ++ prettyMembers depth rest))

end

/-! ## Texts -/

/-- The compact text of a value. -/
def compact (x : Json) : String :=
  String.ofList x.compactChars

/-- The indented text of a value. -/
def pretty (x : Json) : String :=
  String.ofList (x.prettyChars 0)

end PhpTree.Json
