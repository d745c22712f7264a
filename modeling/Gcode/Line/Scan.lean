import Gcode.Word

/-!
Words in a text without white space. A word is a letter with the longest run of value characters
after it, which must not be empty. Characters of the run cannot begin a word, so the scan goes on
right after the letter. What belongs to no word is stray text.
-/

namespace Gcode.Scan

/-- A character of a value: a digit, a sign or a point. -/
def isValueChar (c : Char) : Bool := c.isDigit || c == '+' || c == '-' || c == '.'

/-- Does a value begin here? -/
def startsValue : List Char → Bool
  | [] => false
  | c :: _ => isValueChar c

/-- The words of a text, in order. Letters are in upper case. -/
def words : List Char → List Word
  | [] => []
  | c :: s =>
    if c.isAlpha && startsValue s then
      ⟨String.singleton c.toUpper, Value.read (s.takeWhile isValueChar)⟩ :: words s
    else words s

/-- The characters that belong to no word, in order. `inWord` says whether the text begins inside a
word. -/
def strays : (inWord : Bool) → List Char → List Char
  | _, [] => []
  | inWord, c :: s =>
    if isValueChar c then
      if inWord then strays true s else c :: strays false s
    else if c.isAlpha && startsValue s then strays true s
    else c :: strays false s

/-- The line number that a word gives. -/
def numberOf? (w : Word) : Option Int :=
  match w.letter, w.value with
  | "N", .int n => some n
  | _, _ => none

/-- Takes out the first word that gives a line number. -/
def takeNumber : List Word → Option Int × List Word
  | [] => (none, [])
  | w :: ws =>
    match numberOf? w with
    | some n => (some n, ws)
    | none =>
      let (n, rest) := takeNumber ws
      (n, w :: rest)

end Gcode.Scan
