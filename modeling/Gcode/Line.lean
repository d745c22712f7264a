import Gcode.Line.Checksum
import Gcode.Line.Comment
import Gcode.Line.Scan

/-!
Lines. A line is trimmed, its checksum and then its comments are taken off, and what is left is a
directive (it begins with `%` or `$`), or else a sequence of words in which white space has no
meaning. Strict reading refuses a line with text that belongs to no word.
-/

namespace Gcode

open Gcode.Text

/-- A line of a program. -/
structure Line where
  /-- The text of the line without the white space around it. -/
  text : String
  /-- The words, without the line number. -/
  words : List Word := []
  /-- The value of the `N` word. -/
  number : Option Int := none
  checksum : Option Checksum := none
  /-- The number of the physical line in the document. -/
  sourceLine : Option Int := none
  /-- A program delimiter or a controller command; these have no words. -/
  directive : Option String := none
  deriving DecidableEq, Repr

namespace Line

/-- Does the text give a directive? -/
def isDirective : List Char → Bool
  | c :: _ => c == '%' || c == '$'
  | [] => false

/-- The part of a line with meaning: no comments and no white space around it. -/
def bare (body : List Char) : List Char := trim (Comment.dropTrailing (Comment.dropClosed body))

/-- The text in which words are looked for. -/
def compact (s : List Char) : List Char := s.filter (!isBlank ·)

/-- Reads a line. A blank one gives nothing. -/
def parse (strict : Bool) (text : List Char) (sourceLine : Option Int) :
    Except Fault (Option Line) :=
  let raw := trim text
  if raw.isEmpty then .ok none
  else
    match Checksum.take raw with
    | .error f => .error f
    | .ok (body, checksum) =>
      let line : Line := { text := String.ofList raw, checksum, sourceLine }
      let content := bare body
      if content.isEmpty then .ok (some line)
      else if isDirective content then
        .ok (some { line with directive := some (String.ofList content) })
      else
        let s := compact content
        let stray := Scan.strays false s
        if strict && !stray.isEmpty then
          .error (.unexpectedText (String.ofList stray) line.text sourceLine)
        else
          let (number, words) := Scan.takeNumber (Scan.words s)
          .ok (some { line with number, words })

/-- What is to be said about the checksum of a line: nothing if it is right or absent. -/
def warning? (text : List Char) (sourceLine : Option Int) : Option String :=
  match Checksum.take (trim text) with
  | .ok (_, some c) =>
    if c.ok then none
    else
      let place := match sourceLine with
        | some n => toString n
        | none => "None"
      some ("Checksum mismatch on line " ++ place ++ ": expected " ++ toString c.stated ++
        ", got " ++ toString c.computed)
  | _ => none

end Line

end Gcode
