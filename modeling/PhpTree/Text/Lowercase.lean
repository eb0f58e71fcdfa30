import PhpTree.Text.LowercaseTable
import PhpTree.Text.CaseContext

/-!
# Full lowercase

`lowercase` maps a text to its Unicode lowercase form. All characters but one are mapped on their
own. A capital sigma becomes the final form at the end of a word, which is seen from the
characters on both sides of it: going outwards past case-ignorable characters, the nearest
character before it is cased and the nearest one after it is not.
-/

namespace PhpTree.Text

/-- The capital sigma, whose lowercase form depends on its place in the word. -/
def capitalSigma : Char := '\u03a3'

/-- The lowercase form of a sigma within a word. -/
def medialSigma : Char := '\u03c3'

/-- The lowercase form of a sigma at the end of a word. -/
def finalSigma : Char := '\u03c2'

/-- The capital I with a dot above. Its lowercase form keeps the dot as a combining mark. -/
def dottedCapitalI : Char := '\u0130'

/-- The lowercase form of a character that is looked at on its own. -/
def lowercaseChar (c : Char) : List Char :=
  if c.toNat < 0x80 then [c.toLower]
  else if c = dottedCapitalI then ['i', '\u0307']
  else
    match lowercaseRuns.find? fun run => run.contains c.toNat with
    | some run => [Char.ofNat (c.toNat + run.shift).toNat]
    | none => [c]

/-- Whether the first character of `s` that is not case-ignorable is cased. -/
def reachesCased (s : List Char) : Bool :=
  match s.dropWhile isCaseIgnorable with
  | [] => false
  | c :: _ => isCased c

/-- The lowercase form of a sigma between `before`, read backwards, and `after`. -/
def lowercaseSigma (before after : List Char) : Char :=
  if reachesCased before && !reachesCased after then finalSigma else medialSigma

/-- The lowercase form of `s` when it stands after `before`, which is read backwards. -/
def lowercaseAfter (before : List Char) : List Char → List Char
  | [] => []
  | c :: s =>
    (if c = capitalSigma then [lowercaseSigma before s] else lowercaseChar c) ++
      lowercaseAfter (c :: before) s

/-- The full Unicode lowercase form of a text. -/
def lowercase (s : String) : String :=
  String.ofList (lowercaseAfter [] s.toList)

end PhpTree.Text
