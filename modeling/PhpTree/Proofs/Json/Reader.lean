import PhpTree.Proofs.Json.Denotation

/-!
# A reader of JSON texts

`read` reads a whole text, with any blanks and any escapes the grammar allows, and keeps the members
of objects in the order of the text. Numbers are kept as they are written. The recursion is bounded
by the number of characters, of which every step takes at least one.
-/

namespace PhpTree.Json

open Grammar (IsBlank)

/-! ## The reader -/

def skipBlanks (cs : List Char) : List Char :=
  cs.dropWhile fun c => decide (IsBlank c)

/-- The characters behind a minus, if there is one. -/
def skipMinus : List Char → List Char
  | '-' :: rest => rest
  | cs => cs

/-- The characters behind the sign of an exponent, if there is one. -/
def skipSign : List Char → List Char
  | '-' :: rest => rest
  | '+' :: rest => rest
  | cs => cs

/-- The characters behind one digit and all digits that follow it. -/
def skipDigits : List Char → Option (List Char)
  | d :: rest => if d.isDigit then some (rest.dropWhile Char.isDigit) else none
  | [] => none

/-- The characters behind the integral part of a number. -/
def skipInt : List Char → Option (List Char)
  | '0' :: rest => some rest
  | cs => skipDigits cs

def skipFrac : List Char → Option (List Char)
  | '.' :: rest => skipDigits rest
  | cs => some cs

def skipExp : List Char → Option (List Char)
  | 'e' :: rest => skipDigits (skipSign rest)
  | 'E' :: rest => skipDigits (skipSign rest)
  | cs => some cs

def skipNumber (cs : List Char) : Option (List Char) :=
  ((skipInt (skipMinus cs)).bind skipFrac).bind skipExp

/-- Reads a number as it is written. -/
def readNumber (cs : List Char) : Option (List Char × List Char) :=
  (skipNumber cs).map fun rest => (cs.take (cs.length - rest.length), rest)

def readHex4 : List Char → Option (Nat × List Char)
  | a :: b :: c :: d :: rest =>
    match hexValue? a, hexValue? b, hexValue? c, hexValue? d with
    | some i, some j, some k, some l => some (((i * 16 + j) * 16 + k) * 16 + l, rest)
    | _, _, _, _ => none
  | _ => none

/-- Reads the second half of a surrogate pair. -/
def readLowSurrogate (high : Nat) : List Char → Option (Char × List Char)
  | '\\' :: 'u' :: cs =>
    match readHex4 cs with
    | some (low, rest) =>
      if IsLowSurrogate low then some (Char.ofNat (combineSurrogates high low), rest) else none
    | none => none
  | _ => none

/-- Reads a character that is escaped by its code. -/
def readCode (cs : List Char) : Option (Char × List Char) :=
  match readHex4 cs with
  | some (n, rest) =>
    if IsHighSurrogate n then readLowSurrogate n rest
    else if IsLowSurrogate n then none
    else some (Char.ofNat n, rest)
  | none => none

def readChar : List Char → Option (Char × List Char)
  | '\\' :: 'u' :: cs => readCode cs
  | '\\' :: l :: rest => (letterMeaning? l).map fun c => (c, rest)
  | c :: rest => if Grammar.Unescaped c then some (c, rest) else none
  | [] => none

/-- Reads the characters of a string and the quotation mark behind them. -/
def readChars : Nat → List Char → Option (List Char × List Char)
  | 0, _ => none
  | fuel + 1, cs =>
    match cs with
    | '"' :: rest => some ([], rest)
    | cs =>
      match readChar cs with
      | some (c, ds) => (readChars fuel ds).map fun r => (c :: r.1, r.2)
      | none => none

mutual

def readValue : Nat → List Char → Option (Json × List Char)
  | 0, _ => none
  | _, [] => none
  | fuel + 1, c :: cs =>
    match c with
    | 'n' =>
      match cs with
      | 'u' :: 'l' :: 'l' :: rest => some (.null, rest)
      | _ => none
    | 't' =>
      match cs with
      | 'r' :: 'u' :: 'e' :: rest => some (.bool true, rest)
      | _ => none
    | 'f' =>
      match cs with
      | 'a' :: 'l' :: 's' :: 'e' :: rest => some (.bool false, rest)
      | _ => none
    | '"' => (readChars cs.length cs).map fun r => (.str (String.ofList r.1), r.2)
    | '[' =>
      match skipBlanks cs with
      | ']' :: rest => some (.arr [], rest)
      | ds => (readItems fuel ds).map fun r => (.arr r.1, r.2)
    | '\x7b' =>
      match skipBlanks cs with
      | '\x7d' :: rest => some (.obj [], rest)
      | ds => (readMembers fuel ds).map fun r => (.obj r.1, r.2)
    | _ => (readNumber (c :: cs)).map fun r => (.num (String.ofList r.1), r.2)

/-- Reads at least one item and the bracket behind the last one. -/
def readItems : Nat → List Char → Option (List Json × List Char)
  | 0, _ => none
  | fuel + 1, cs =>
    match readValue fuel cs with
    | some (x, ds) =>
      match skipBlanks ds with
      | ']' :: rest => some ([x], rest)
      | ',' :: es => (readItems fuel (skipBlanks es)).map fun r => (x :: r.1, r.2)
      | _ => none
    | none => none

def readMember : Nat → List Char → Option ((String × Json) × List Char)
  | 0, _ => none
  | fuel + 1, cs =>
    match cs with
    | '"' :: cs =>
      match readChars cs.length cs with
      | some (key, ds) =>
        match skipBlanks ds with
        | ':' :: es =>
          (readValue fuel (skipBlanks es)).map fun r => ((String.ofList key, r.1), r.2)
        | _ => none
      | none => none
    | _ => none

/-- Reads at least one member and the brace behind the last one. -/
def readMembers : Nat → List Char → Option (List (String × Json) × List Char)
  | 0, _ => none
  | fuel + 1, cs =>
    match readMember fuel cs with
    | some (m, ds) =>
      match skipBlanks ds with
      | '\x7d' :: rest => some ([m], rest)
      | ',' :: es => (readMembers fuel (skipBlanks es)).map fun r => (m :: r.1, r.2)
      | _ => none
    | none => none

end

/-- Reads a whole text. -/
def readText (cs : List Char) : Option Json :=
  match readValue cs.length (skipBlanks cs) with
  | some (x, rest) => if skipBlanks rest = [] then some x else none
  | none => none

def read (text : String) : Option Json :=
  readText text.toList

end PhpTree.Json
