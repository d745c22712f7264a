import Gcode.Number.Decimal

/-!
The text of a double: the fewest digits that read back as the same number, and of those the nearest
to it. On the grid of decimals with a given number of digits only the two neighbours of the exact
value have to be tried. The digits are laid out with a point while the decimal exponent is from -4
to 15, and with a written exponent otherwise.
-/

namespace Gcode.Binary64

/-- The number of decimal digits of a natural number; zero has none. -/
def digitCount (n : Nat) : Nat := if n = 0 then 0 else (Nat.toDigits 10 n).length

/-- The exponent of the leading digit of `num / den`, both positive. -/
def leadingExponent (num den : Nat) : Int :=
  if den ≤ num then (digitCount (num / den) : Int) - 1
  else -(digitCount ((den - 1) / num) : Int)

/-- A decimal with units of `10 ^ exponent` next to `magnitude / one` that reads back as `x`. The
nearer of the two neighbours is tried first, and of two equally near the even one. -/
def neighbour? (x : Binary64) (magnitude : Nat) (exponent : Int) : Option Decimal :=
  let num := magnitude * Nat.pow 10 (-exponent).toNat
  let den := one * Nat.pow 10 exponent.toNat
  let candidates : List Decimal :=
    [⟨roundDiv num den, exponent⟩, ⟨num / den, exponent⟩, ⟨num / den + 1, exponent⟩]
  candidates.find? fun d => d.round false == x

/-- Drops the zeros at the end of the digits. -/
def dropZeros : (fuel : Nat) → Decimal → Decimal
  | 0, d => d
  | fuel + 1, d =>
    if d.digits ≠ 0 ∧ d.digits % 10 = 0 then dropZeros fuel ⟨d.digits / 10, d.exponent + 1⟩ else d

/-- The exact decimal value of a magnitude: a power of two below one is a power of five over a power
of ten. -/
def exactDecimal (magnitude : Nat) : Decimal := ⟨magnitude * Nat.pow 5 1074, -1074⟩

/-- The shortest decimal that reads back as the positive double of the given magnitude. -/
def shortest (magnitude : Nat) : Decimal :=
  let x := ofRatio false magnitude one
  let top := leadingExponent magnitude one
  let found := (List.range 17).findSome? fun (n : Nat) => neighbour? x magnitude (top - n)
  let d := found.getD (exactDecimal magnitude)
  dropZeros (digitCount d.digits) d

/-- The smallest decimal exponent that is laid out without a written exponent. -/
def positionalFrom : Int := -4

/-- The decimal exponents below this one are laid out without a written exponent. -/
def positionalBelow : Int := 16

/-- A written exponent: a sign and at least two digits. -/
def exponentText (e : Int) : List Char :=
  let ds := Nat.toDigits 10 e.natAbs
  'e' :: (if e < 0 then '-' else '+') :: (List.replicate (2 - ds.length) '0' ++ ds)

/-- Lays out a decimal that has no zeros at the end of its digits. -/
def layout (d : Decimal) : List Char :=
  let ds := Nat.toDigits 10 d.digits
  let top : Int := d.exponent + ds.length - 1
  if positionalFrom ≤ top ∧ top < positionalBelow then
    if top < 0 then '0' :: '.' :: (List.replicate (-top - 1).toNat '0' ++ ds)
    else
      let whole := top.toNat + 1
      let fraction := ds.drop whole
      ds.take whole ++ List.replicate (whole - ds.length) '0' ++
        '.' :: (if fraction.isEmpty then ['0'] else fraction)
  else
    match ds with
    | [] => []
    | [c] => c :: exponentText top
    | c :: cs => c :: '.' :: cs ++ exponentText top

/-- The text of a double. -/
def render : Binary64 → List Char
  | .nan => ['n', 'a', 'n']
  | .infinite negative => (if negative then ['-'] else []) ++ ['i', 'n', 'f']
  | .finite negative m p =>
    (if negative then ['-'] else []) ++
      (if m = 0 then ['0', '.', '0'] else layout (shortest (m * Nat.pow 2 p)))

end Gcode.Binary64
