import Gcode.Line

/-!
Reading a document piece by piece. A line ends at a line feed, at a carriage return, or at the two
together. A carriage return at the end of what has come so far is held back, because a line feed may
follow. What has no end yet is kept as pending text, and given up as the last line when the document
ends.
-/

namespace Gcode

/-- Cuts a text into the lines that are complete and the text after them. -/
def cutLines : List Char → List (List Char) × List Char
  | [] => ([], [])
  | ['\r'] => ([], ['\r'])
  | '\r' :: '\n' :: s =>
    let (ls, rest) := cutLines s
    ([] :: ls, rest)
  | c :: s =>
    let (ls, rest) := cutLines s
    if c = '\r' ∨ c = '\n' then ([] :: ls, rest)
    else
      match ls with
      | [] => ([], c :: rest)
      | l :: ls => ((c :: l) :: ls, rest)

/-- What comes of reading some lines. -/
structure Reading where
  /-- The lines that are not blank, or the first fault. -/
  lines : Except Fault (List Line)
  /-- The number of the last physical line that was looked at. -/
  count : Nat
  /-- What was found about checksums on the way. -/
  warnings : List String

/-- Reads physical lines in order; `count` of them came before. The first fault ends the reading. -/
def Reading.ofLines (strict : Bool) (count : Nat) : List (List Char) → Reading
  | [] => ⟨.ok [], count, []⟩
  | s :: rest =>
    let place : Option Int := some ((count + 1 : Nat) : Int)
    let warned := (Line.warning? s place).toList
    match Line.parse strict s place with
    | .error f => ⟨.error f, count + 1, warned⟩
    | .ok line? =>
      let r := Reading.ofLines strict (count + 1) rest
      { r with
        lines := r.lines.map (line?.toList ++ ·)
        warnings := warned ++ r.warnings }

/-- A reader between two pieces of a document. -/
structure LineReader where
  strict : Bool
  /-- How many physical lines were looked at. -/
  count : Nat := 0
  /-- The text after the last complete line. -/
  pending : List Char := []
  deriving DecidableEq, Repr

namespace LineReader

/-- Reads complete lines. -/
def readLines (r : LineReader) (parts : List (List Char)) : Reading × LineReader :=
  let reading := Reading.ofLines r.strict r.count parts
  (reading, { r with count := reading.count })

/-- Takes a piece of the document and reads the lines that it completes. -/
def feed (r : LineReader) (text : List Char) : Reading × LineReader :=
  let (parts, rest) := cutLines (r.pending ++ text)
  { r with pending := rest }.readLines parts

/-- The pending text as a last line. A carriage return that was held back ends it. -/
def lastLine (pending : List Char) : List (List Char) :=
  if pending.isEmpty then []
  else if pending.getLast? = some '\r' then [pending.dropLast]
  else [pending]

/-- Reads what is pending at the end of the document. -/
def flush (r : LineReader) : Reading × LineReader :=
  { r with pending := [] }.readLines (lastLine r.pending)

/-- Reads a complete document. -/
def program (r : LineReader) (text : List Char) : Reading × LineReader :=
  let (first, r) := r.feed text
  match first.lines with
  | .error _ => (first, r)
  | .ok lines =>
    let (last, r) := r.flush
    (⟨last.lines.map (lines ++ ·), last.count, first.warnings ++ last.warnings⟩, r)

end LineReader

end Gcode
