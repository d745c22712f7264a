/-!
Comments. A comment in parentheses runs to the first closing one and does not go over a line break;
a parenthesis without a closing one is ordinary text. A semicolon makes the rest of the text a
comment.
-/

namespace Gcode.Comment

/-- The number of characters up to the closing parenthesis, that one included. The text begins after
the opening parenthesis. -/
def length? : List Char → Option Nat
  | [] => none
  | c :: s =>
    if c = ')' then some 1
    else if c = '\n' then none
    else (length? s).map (· + 1)

/-- Drops the comments in parentheses, after passing over the first `skip` characters. -/
def dropClosedFrom : (skip : Nat) → List Char → List Char
  | _, [] => []
  | skip + 1, _ :: s => dropClosedFrom skip s
  | 0, c :: s =>
    if c = '(' then
      match length? s with
      | some n => dropClosedFrom n s
      | none => c :: dropClosedFrom 0 s
    else c :: dropClosedFrom 0 s

/-- The text without the comments in parentheses. -/
def dropClosed (s : List Char) : List Char := dropClosedFrom 0 s

/-- Is the text the last line of the document? A line break at its very end does not count. -/
def isLastLine (s : List Char) : Bool := (s.dropWhile (· ≠ '\n')).length ≤ 1

/-- The text up to the first semicolon on its last line. -/
def dropTrailing : List Char → List Char
  | [] => []
  | c :: s => if c = ';' ∧ isLastLine s then [] else c :: dropTrailing s

end Gcode.Comment
