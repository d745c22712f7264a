/-!
Limits of what a machine can hold. A size must fit in a signed word, and memory is handed out in
blocks that must not be too large.
-/

namespace Gcode.Limits

/-- The largest size. -/
def maxSize : Nat := Nat.pow 2 63 - 1

/-- Does a number fit where a size is asked for? -/
def isSize (n : Int) : Bool := decide (-(Nat.pow 2 63 : Int) ≤ n ∧ n ≤ (maxSize : Int))

/-- What a block of bytes takes up besides the bytes. -/
def blockHeader : Nat := 33

/-- The size from which on no block of memory is handed out. -/
def noBlock : Nat := Nat.pow 2 36

end Gcode.Limits
