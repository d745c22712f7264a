/-!
Double-precision numbers, exactly. A finite number is a sign and `significand * 2 ^ unit` counted in
the smallest positive one, `2 ^ (-1074)`, so that all of rounding is done on natural numbers. The
main definition is `ofRatio`: the double nearest to a quotient, where a tie goes to the even
significand and what lies beyond the largest double becomes infinite.
-/

namespace Gcode

/-- A double-precision number. `finite` stands for `significand * 2 ^ unit * 2 ^ (-1074)`. -/
inductive Binary64 where
  | nan
  | infinite (negative : Bool)
  | finite (negative : Bool) (significand unit : Nat)
  deriving DecidableEq, Repr

namespace Binary64

/-- How many of the smallest positive doubles make one. -/
def one : Nat := Nat.pow 2 1074

/-- The largest unit of a finite double. -/
def maxUnit : Nat := 2045

/-- Rounds a quotient to the nearest natural number, a half to the even one. -/
def roundDiv (num den : Nat) : Nat :=
  let q := num / den
  let r := num % den
  if 2 * r < den then q
  else if den < 2 * r then q + 1
  else q + q % 2

/-- The unit in which a magnitude, counted in the smallest doubles, has at most 53 bits. -/
def unitOf (magnitude : Nat) : Nat := magnitude.log2 - 52

/-- A significand and a unit as a double: a carry into the 54th bit moves to the next unit, and a
unit beyond the largest one makes an infinity. -/
def pack (negative : Bool) (significand unit : Nat) : Binary64 :=
  let (m, p) := if significand = Nat.pow 2 53 then (Nat.pow 2 52, unit + 1) else (significand, unit)
  if maxUnit < p then .infinite negative else .finite negative m p

/-- The double nearest to `num / den`, with the given sign. -/
def ofRatio (negative : Bool) (num den : Nat) : Binary64 :=
  let unit := unitOf (num * one / den)
  pack negative (roundDiv (num * one) (den * Nat.pow 2 unit)) unit

/-- The magnitude of a finite double, counted in the smallest positive one. -/
def magnitude : Binary64 → Nat
  | .finite _ m p => m * Nat.pow 2 p
  | _ => 0

/-- Is it zero, of either sign? -/
def isZero : Binary64 → Bool
  | .finite _ m _ => m == 0
  | _ => false

/-- The integer that a double is equal to, if there is one. -/
def toInt? : Binary64 → Option Int
  | .finite negative m p =>
    let n := m * Nat.pow 2 p
    if n % one = 0 then some (if negative then -((n / one : Nat) : Int) else (n / one : Nat))
    else none
  | _ => none

/-- A double that can occur: its significand has 53 bits, or fewer in the smallest unit. -/
def Canonical : Binary64 → Prop
  | .finite _ m p => m < Nat.pow 2 53 ∧ (Nat.pow 2 52 ≤ m ∨ p = 0) ∧ p ≤ maxUnit
  | _ => True

instance : DecidablePred Canonical := fun x => by
  cases x <;> unfold Canonical <;> infer_instance

end Binary64

end Gcode
