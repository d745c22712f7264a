import Gcode.Text.Blank
import Gcode.Text.DecimalDigit

/-!
Reading integers. A numeral is an optional sign and digits of any script, with single underscores
allowed between two digits and white space around the whole. A numeral may have at most 4300 digits,
leading zeros included; a longer one is refused for its length.
-/

namespace Gcode.Integer

open Gcode.Text

/-- Why a text is not read as an integer. -/
inductive Refusal where
  | malformed
  | tooLong (digits : Nat)
  deriving DecidableEq, Repr

/-- The most digits a numeral may have. -/
def maxDigits : Nat := 4300

/-- The digits of a run in which underscores stand only between two digits. -/
def digitRun? : List Char → Option (List Nat)
  | [] => none
  | [c] => (digitValue? c).map ([·])
  | c :: '_' :: s =>
    match digitValue? c, digitRun? s with
    | some d, some ds => some (d :: ds)
    | _, _ => none
  | c :: s =>
    match digitValue? c, digitRun? s with
    | some d, some ds => some (d :: ds)
    | _, _ => none

/-- The number with the given decimal digits, the most significant first. -/
def ofDigits (ds : List Nat) : Nat := ds.foldl (fun n d => n * 10 + d) 0

/-- Takes a sign off the front: is it a minus, and what follows? -/
def splitSign : List Char → Bool × List Char
  | '-' :: s => (true, s)
  | '+' :: s => (false, s)
  | s => (false, s)

/-- A character that can stand in the digits of a numeral. -/
def isDigitOrUnderscore (c : Char) : Bool := isDecimalDigit c || c == '_'

/-- Reads the digits of a numeral. The length is judged before what follows the digits. -/
def readDigits (s : List Char) : Except Refusal Nat :=
  match digitRun? (s.takeWhile isDigitOrUnderscore) with
  | none => .error .malformed
  | some ds =>
    if maxDigits < ds.length then .error (.tooLong ds.length)
    else if (s.dropWhile isDigitOrUnderscore).isEmpty then .ok (ofDigits ds)
    else .error .malformed

/-- Reads an integer. -/
def read (text : List Char) : Except Refusal Int :=
  let (negative, s) := splitSign (trimWhile isPadding text)
  match readDigits s with
  | .error r => .error r
  | .ok n => .ok (if negative then -(n : Int) else n)

/-- The plain decimal numeral of an integer. -/
def render : Int → List Char
  | .ofNat n => Nat.toDigits 10 n
  | .negSucc n => '-' :: Nat.toDigits 10 (n + 1)

end Gcode.Integer
