/-!
Sets of characters given by ranges of code points. The character classes of the library that go
beyond ASCII are values of this type, so that each of them is one table and one membership test.
-/

namespace Gcode.Text

/-- A set of characters: every code point in one of the ranges, both ends included. -/
abbrev Ranges := List (Nat × Nat)

/-- Is the character in the set? -/
def Ranges.has (ranges : Ranges) (c : Char) : Bool :=
  ranges.any fun r => decide (r.1 ≤ c.toNat) && decide (c.toNat ≤ r.2)

@[simp]
theorem Ranges.has_nil (c : Char) : Ranges.has [] c = false := rfl

@[simp]
theorem Ranges.has_cons (r : Nat × Nat) (rs : Ranges) (c : Char) :
    Ranges.has (r :: rs) c = ((decide (r.1 ≤ c.toNat) && decide (c.toNat ≤ r.2)) || rs.has c) :=
  rfl

end Gcode.Text
