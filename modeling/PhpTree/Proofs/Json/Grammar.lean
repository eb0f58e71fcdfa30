/-!
# The grammar of JSON texts

The grammar of RFC 8259, production by production, as predicates on lists of characters. It says
which texts are JSON and nothing about what they mean. Blanks stand where the grammar allows them:
around the structural characters and around the whole text.
-/

namespace PhpTree.Json.Grammar

/-! ## Blanks and structural characters -/

/-- A character of `ws`: space, tabulator, line feed or carriage return. -/
def IsBlank (c : Char) : Prop :=
  c = ' ' ∨ c = '\t' ∨ c = '\n' ∨ c = '\r'

instance (c : Char) : Decidable (IsBlank c) :=
  inferInstanceAs (Decidable (_ ∨ _))

/-- `ws`. -/
def Ws (cs : List Char) : Prop :=
  ∀ c ∈ cs, IsBlank c

/-- One of the six structural characters, with the blanks around it: `begin-array` and so on. -/
def Structural (c : Char) (cs : List Char) : Prop :=
  ∃ before after, Ws before ∧ Ws after ∧ cs = before ++ c :: after

/-- A production that may be left out. -/
def Optional (P : List Char → Prop) (cs : List Char) : Prop :=
  cs = [] ∨ P cs

/-! ## Numbers -/

/-- `*DIGIT`. -/
def Digits (cs : List Char) : Prop :=
  ∀ c ∈ cs, c.isDigit = true

/-- `minus`. -/
def Minus (cs : List Char) : Prop :=
  cs = ['-']

/-- `int`: zero, or digits of which the first is not zero. -/
inductive IntPart : List Char → Prop
  | zero : IntPart ['0']
  | positive {d : Char} {ds : List Char} : d.isDigit = true → d ≠ '0' → Digits ds → IntPart (d :: ds)

/-- `frac`: a point and at least one digit. -/
inductive FracPart : List Char → Prop
  | mk {d : Char} {ds : List Char} : d.isDigit = true → Digits ds → FracPart ('.' :: d :: ds)

/-- The sign of an exponent. -/
def Sign (cs : List Char) : Prop :=
  cs = ['-'] ∨ cs = ['+']

/-- `exp`: the letter, perhaps a sign, and at least one digit. -/
inductive ExpPart : List Char → Prop
  | mk {e d : Char} {sign ds : List Char} : e = 'e' ∨ e = 'E' → Optional Sign sign →
      d.isDigit = true → Digits ds → ExpPart (e :: (sign ++ d :: ds))

/-- `number`. -/
inductive Number : List Char → Prop
  | mk {minus int frac exp : List Char} : Optional Minus minus → IntPart int →
      Optional FracPart frac → Optional ExpPart exp → Number (minus ++ int ++ frac ++ exp)

/-! ## Strings -/

/-- `unescaped`: neither a quotation mark nor a backslash nor a control character. -/
def Unescaped (c : Char) : Prop :=
  0x20 ≤ c.toNat ∧ c ≠ '"' ∧ c ≠ '\\'

instance (c : Char) : Decidable (Unescaped c) :=
  inferInstanceAs (Decidable (_ ∧ _))

/-- `HEXDIG`, in either case. -/
def HexDigit (c : Char) : Prop :=
  c.isDigit = true ∨ ('A' ≤ c ∧ c ≤ 'F') ∨ ('a' ≤ c ∧ c ≤ 'f')

/-- `char`. -/
inductive StringChar : List Char → Prop
  | unescaped {c : Char} : Unescaped c → StringChar [c]
  | letter {c : Char} : c ∈ ['"', '\\', '/', 'b', 'f', 'n', 'r', 't'] → StringChar ['\\', c]
  | code {a b c d : Char} : HexDigit a → HexDigit b → HexDigit c → HexDigit d →
      StringChar ['\\', 'u', a, b, c, d]

/-- `*char`. -/
inductive StringChars : List Char → Prop
  | nil : StringChars []
  | cons {cs ds : List Char} : StringChar cs → StringChars ds → StringChars (cs ++ ds)

/-- `string`. -/
inductive StringLiteral : List Char → Prop
  | mk {cs : List Char} : StringChars cs → StringLiteral ('"' :: (cs ++ ['"']))

/-! ## Values -/

mutual

/-- `value`, with the productions `object` and `array`. -/
inductive Value : List Char → Prop
  | false : Value ['f', 'a', 'l', 's', 'e']
  | null : Value ['n', 'u', 'l', 'l']
  | true : Value ['t', 'r', 'u', 'e']
  | number {cs : List Char} : Number cs → Value cs
  | string {cs : List Char} : StringLiteral cs → Value cs
  | emptyArray {start stop : List Char} : Structural '[' start → Structural ']' stop →
      Value (start ++ stop)
  | array {start items stop : List Char} : Structural '[' start → Values items →
      Structural ']' stop → Value (start ++ items ++ stop)
  | emptyObject {start stop : List Char} : Structural '\x7b' start → Structural '\x7d' stop →
      Value (start ++ stop)
  | object {start members stop : List Char} : Structural '\x7b' start → Members members →
      Structural '\x7d' stop → Value (start ++ members ++ stop)

/-- `value *( value-separator value )`. -/
inductive Values : List Char → Prop
  | one {cs : List Char} : Value cs → Values cs
  | cons {cs comma ds : List Char} : Value cs → Structural ',' comma → Values ds →
      Values (cs ++ comma ++ ds)

/-- `member`. -/
inductive Member : List Char → Prop
  | mk {key colon cs : List Char} : StringLiteral key → Structural ':' colon → Value cs →
      Member (key ++ colon ++ cs)

/-- `member *( value-separator member )`. -/
inductive Members : List Char → Prop
  | one {cs : List Char} : Member cs → Members cs
  | cons {cs comma ds : List Char} : Member cs → Structural ',' comma → Members ds →
      Members (cs ++ comma ++ ds)

end

/-- `JSON-text`. -/
inductive Text : List Char → Prop
  | mk {before cs after : List Char} : Ws before → Value cs → Ws after →
      Text (before ++ cs ++ after)

end PhpTree.Json.Grammar
