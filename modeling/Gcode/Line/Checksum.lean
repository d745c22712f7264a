import Gcode.Fault

/-!
Checksums. A line may end in a star and digits; the number they give is compared with the exclusive
or of the low eight bits of all characters before the star.
-/

namespace Gcode

open Gcode.Text

/-- The exclusive or of the low eight bits of the characters of a text. -/
def checksumOf (s : List Char) : Nat := s.foldl (fun sum c => sum ^^^ (c.toNat % 256)) 0

/-- The checksum that a line states, with the one that its text has. -/
structure Checksum where
  stated : Nat
  computed : Nat
  deriving DecidableEq, Repr

/-- Does the text have the checksum it states? -/
def Checksum.ok (c : Checksum) : Bool := c.computed == c.stated

namespace Checksum

/-- Cuts a text before its last star if nothing but digits, and at least one, follows it. -/
def split? (s : List Char) : Option (List Char × List Char) :=
  let back := s.reverse
  let digits := back.takeWhile isDecimalDigit
  match back.dropWhile isDecimalDigit with
  | '*' :: body => if digits.isEmpty then none else some (body.reverse, digits.reverse)
  | _ => none

/-- The text before the checksum, and the checksum if there is one. The digits count as a numeral,
so their number is limited. -/
def take (s : List Char) : Except Fault (List Char × Option Checksum) :=
  match split? s with
  | none => .ok (s, none)
  | some (body, digits) =>
    match Integer.readDigits digits with
    | .error r => .error (.badInteger (String.ofList digits) r)
    | .ok n => .ok (body, some ⟨n, checksumOf body⟩)

end Checksum

end Gcode
