import Gcode.Number.Binary64
import Gcode.Number.Integer

/-!
Decimal fractions and their text. A decimal is a natural number of digits and a power of ten;
reading gives the double nearest to it. The text of a decimal is a sign, digits of any script with
at most one point, and an exponent; underscores may stand between two digits, white space around the
whole, and the names of infinity and of the undefined value are accepted in any case.
-/

namespace Gcode

/-- The number `digits * 10 ^ exponent`. -/
structure Decimal where
  digits : Nat
  exponent : Int
  deriving DecidableEq, Repr

namespace Decimal

open Gcode.Text

/-- Numerator and denominator of a decimal. -/
def ratio (d : Decimal) : Nat × Nat :=
  if 0 ≤ d.exponent then (d.digits * Nat.pow 10 d.exponent.toNat, 1)
  else (d.digits, Nat.pow 10 (-d.exponent).toNat)

/-- The double nearest to a decimal. -/
def round (negative : Bool) (d : Decimal) : Binary64 :=
  Binary64.ofRatio negative d.ratio.1 d.ratio.2

/-- Does every underscore stand between two digits? `afterDigit` says whether a digit came before.
-/
def underscoresFit : (afterDigit : Bool) → List Char → Bool
  | _, [] => true
  | afterDigit, '_' :: s =>
    afterDigit && (match s with
      | c :: _ => isDecimalDigit c
      | [] => false) && underscoresFit false s
  | _, c :: s => underscoresFit (isDecimalDigit c) s

/-- Reads the exponent that may follow the digits. -/
def readExponent? : List Char → Option Int
  | [] => some 0
  | c :: s =>
    if c == 'e' || c == 'E' then
      let (negative, ds) := Integer.splitSign s
      if !ds.isEmpty && ds.all isDecimalDigit then
        some (if negative then -(digitsValue ds : Int) else digitsValue ds)
      else none
    else none

/-- Brings an exponent near to the digits it belongs to. With `digits` digits an exponent beyond
`digits + 400` on either side gives an infinity or a zero whatever its size. -/
def clampExponent (digits : Nat) (e : Int) : Int :=
  max (-(digits + 400 : Int)) (min (digits + 400 : Int) e)

/-- Reads digits with a point and an exponent, without sign and underscores. -/
def readUnsigned? (s : List Char) : Option Decimal :=
  let whole := s.takeWhile isDecimalDigit
  let (fraction, rest) :=
    match s.dropWhile isDecimalDigit with
    | '.' :: r => (r.takeWhile isDecimalDigit, r.dropWhile isDecimalDigit)
    | r => ([], r)
  let digits := whole ++ fraction
  if digits.isEmpty then none
  else
    match readExponent? rest with
    | none => none
    | some e => some ⟨digitsValue digits, clampExponent digits.length e - fraction.length⟩

/-- The names of the values that are not finite, in lower case. -/
def named? (negative : Bool) (name : List Char) : Option Binary64 :=
  let lower := String.ofList (name.map Char.toLower)
  if lower == "inf" || lower == "infinity" then some (.infinite negative)
  else if lower == "nan" then some .nan
  else none

/-- Reads a double. -/
def read? (text : List Char) : Option Binary64 :=
  let s := trimWhile isPadding text
  if underscoresFit false s then
    let (negative, body) := Integer.splitSign (s.filter (· != '_'))
    match named? negative body with
    | some x => some x
    | none => (readUnsigned? body).map (round negative)
  else none

end Decimal

end Gcode
