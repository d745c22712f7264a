import Gcode.Fault
import Gcode.Limits

/-!
Templates: texts with slots that are filled from a list of texts. A slot begins with a percent sign
and ends with a mark, which says how the text is shown. Between the two may stand flags, a width, a
point with a precision, and a size letter. Two percent signs in a row stand for one.
-/

namespace Gcode.Template

open Gcode.Text

/-- How a text is laid out in its slot. -/
structure Layout where
  /-- Does the text stand at the left if the slot is wider? -/
  left : Bool := false
  width : Nat := 0
  /-- How many characters are shown at most. -/
  precision : Option Nat := none
  deriving DecidableEq, Repr

/-- The largest precision. -/
def maxPrecision : Nat := Nat.pow 2 31 - 1

namespace Layout

/-- Cuts a text to the precision. -/
def cut (l : Layout) (s : List Char) : List Char :=
  match l.precision with
  | some n => s.take n
  | none => s

/-- Fills a text up to the width with blanks. -/
def fit (l : Layout) (s : List Char) : Except Fault (List Char) :=
  if Limits.noBlock ≤ l.width then .error .noMemory
  else
    let blanks := List.replicate (l.width - s.length) ' '
    .ok (if l.left then s ++ blanks else blanks ++ s)

end Layout

/-- How far the reading of a slot has come. -/
inductive Stage where
  /-- Right behind the percent sign. -/
  | opened
  | flags
  | width
  /-- Right behind the point. -/
  | point
  | precision
  /-- Behind the size letter. -/
  | sized
  deriving DecidableEq, Repr

/-- What a character means in a slot. -/
inductive Step where
  | more (stage : Stage) (layout : Layout)
  /-- A percent sign stands there instead of a slot. -/
  | percent
  /-- The width or the precision is to be taken from the texts. -/
  | star
  | mark
  | fault (f : TemplateFault)
  deriving DecidableEq, Repr

/-- Adds a digit to a number. -/
def addDigit (n : Nat) (c : Char) : Nat := 10 * n + (c.toNat - '0'.toNat)

/-- Adds a digit to the width. -/
def widen (l : Layout) (c : Char) : Step :=
  let width := addDigit l.width c
  if Limits.maxSize < width then .fault .widthTooBig else .more .width { l with width }

/-- Adds a digit to the precision. -/
def limit (l : Layout) (c : Char) : Step :=
  let precision := addDigit (l.precision.getD 0) c
  if maxPrecision < precision then .fault .precisionTooBig
  else .more .precision { l with precision := some precision }

/-- Behind the precision: a size letter, which means nothing, or the mark. -/
def stepSize (l : Layout) (c : Char) : Step :=
  if c = 'h' ∨ c = 'l' ∨ c = 'L' then .more .sized l else .mark

/-- Behind the width: a point, or what comes later. -/
def stepPoint (l : Layout) (c : Char) : Step :=
  if c = '.' then .more .point { l with precision := some 0 } else stepSize l c

/-- Among the flags. A minus sign moves the text to the left, the others mean nothing to a text. -/
def stepFlags (l : Layout) (c : Char) : Step :=
  if c = '-' then .more .flags { l with left := true }
  else if c = '+' ∨ c = ' ' ∨ c = '#' ∨ c = '0' then .more .flags l
  else if c = '*' then .star
  else if c.isDigit then widen l c
  else stepPoint l c

/-- What a character means at a stage. -/
def step (l : Layout) (c : Char) : Stage → Step
  | .opened =>
    if c = '%' then .percent else if c = '(' then .fault .needsNames else stepFlags l c
  | .flags => stepFlags l c
  | .width => if c.isDigit then widen l c else stepPoint l c
  | .point => if c = '*' then .star else if c.isDigit then limit l c else stepSize l c
  | .precision => if c.isDigit then limit l c else stepSize l c
  | .sized => .mark

/-- A text as the mark of its slot wants it: as it is, between quotes, or as a single character.
Marks for numbers are not for texts. -/
def render (l : Layout) (mark : Char) (index : Nat) (arg : List Char) : Except Fault (List Char) :=
  match mark with
  | 's' => l.fit (l.cut arg)
  | 'r' => l.fit (l.cut (quoteText arg))
  | 'a' => l.fit (l.cut (quoteAscii arg))
  | 'c' => if arg.length = 1 then l.fit arg else .error (.template .needsCharacter)
  | 'd' | 'i' | 'u' => .error (.template (.needsNumber mark))
  | 'o' | 'x' | 'X' => .error (.template (.needsInteger mark))
  | 'e' | 'E' | 'f' | 'F' | 'g' | 'G' => .error (.template .needsReal)
  | _ => .error (.template (.unknownMark mark index))

/-- Fills a template from a character on, which may stand in a slot. A text is taken before the mark
of its slot is looked at. In the end no text may be left. -/
def fillFrom (index : Nat) : Option (Stage × Layout) → List Char → List String →
    Except Fault (List Char)
  | none, [], [] => .ok []
  | none, [], _ :: _ => .error (.template .tooManyTexts)
  | some _, [], _ => .error (.template .incomplete)
  | none, c :: s, args =>
    if c = '%' then fillFrom (index + 1) (some (.opened, {})) s args
    else (fillFrom (index + 1) none s args).map (c :: ·)
  | some (stage, l), c :: s, args =>
    match step l c stage, args with
    | .more stage l, args => fillFrom (index + 1) (some (stage, l)) s args
    | .percent, args => (fillFrom (index + 1) none s args).map ('%' :: ·)
    | .fault f, _ => .error (.template f)
    | .star, [] | .mark, [] => .error (.template .notEnoughTexts)
    | .star, _ :: _ => .error (.template .starNeedsInteger)
    | .mark, arg :: args =>
      match render l c index arg.toList with
      | .error f => .error f
      | .ok shown => (fillFrom (index + 1) none s args).map (shown ++ ·)

/-- Fills a template. Without texts it is taken as it is. -/
def fill (template : String) (args : List String) : Except Fault String :=
  if args.isEmpty then .ok template
  else (fillFrom 0 none template.toList args).map String.ofList

end Gcode.Template
