import Gcode.Literal
import Gcode.Table

/-!
Words: a letter with a value, such as `X-0.5`. The text after a letter is an integer if it can be
read as one, else a double if it can be read as one, else it is kept as it is.
-/

namespace Gcode

/-- The value of a word. -/
inductive Value where
  | int (n : Int)
  | float (x : Binary64)
  | text (s : String)
  deriving DecidableEq, Repr

namespace Value

/-- Reads the text after a letter. -/
def read (raw : List Char) : Value :=
  match Integer.read raw with
  | .ok n => .int n
  | .error _ =>
    match Decimal.read? raw with
    | some x => .float x
    | none => .text (String.ofList raw)

/-- The text of a value. -/
def render : Value → String
  | .int n => String.ofList (Integer.render n)
  | .float x => String.ofList x.render
  | .text s => s

/-- A value as plain data. -/
def toLiteral : Value → Literal
  | .int n => .int n
  | .float x => .float x
  | .text s => .text s

/-- The value in a command code, where a double equal to an integer is written as that integer. -/
def inCode : Value → Value
  | .float x =>
    match x.toInt? with
    | some n => .int n
    | none => .float x
  | v => v

end Value

/-- A letter with its value. -/
structure Word where
  letter : String
  value : Value
  deriving DecidableEq, Repr

namespace Word

/-- The text of a word. -/
def render (w : Word) : String := w.letter ++ w.value.render

/-- The letters that begin a command. -/
def commandLetters : List String := ["G", "M"]

/-- Does the word begin a command? -/
def isCommand (w : Word) : Bool := commandLetters.contains w.letter

/-- The command code of a word: `G01`, `G1` and `G1.0` all give `G1`. -/
def code (w : Word) : String := w.letter ++ w.value.inCode.render

end Word

/-- The arguments of a command: letters with values, in order of first occurrence. -/
abbrev Args := Table Value

/-- The arguments that some words give. The last value of a letter counts. -/
def Args.ofWords (ws : List Word) : Args := Table.ofList (ws.map fun w => (w.letter, w.value))

/-- Arguments as plain data. -/
def Args.toLiteral (args : Args) : Literal := .dict (args.entries.map fun e => (e.1, e.2.toLiteral))

end Gcode
