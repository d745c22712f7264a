import Gcode.Text.Printable

/-!
Quoted text, as it stands in messages. A text is put between single quotes, or between double quotes
if it holds a single quote and no double one. Backslashes and the closing quote are escaped, line
breaks and tabs have short names, and what cannot be shown is written by its number.
-/

namespace Gcode.Text

/-- Bytes of a file or a stream. -/
abbrev Bytes := List UInt8

/-- A number in hexadecimal with at least `width` digits. -/
def hex (width n : Nat) : List Char :=
  let ds := Nat.toDigits 16 n
  List.replicate (width - ds.length) '0' ++ ds

/-- The quote to put around a text, told whether it holds single and double quotes. -/
def quoteFor (hasSingle hasDouble : Bool) : Char := if hasSingle && !hasDouble then '"' else '\''

/-- Escapes that texts and bytes share. -/
def shortEscape? (quote : Char) (c : Char) : Option (List Char) :=
  if c = quote ∨ c = '\\' then some ['\\', c]
  else if c = '\n' then some ['\\', 'n']
  else if c = '\r' then some ['\\', 'r']
  else if c = '\t' then some ['\\', 't']
  else none

/-- One character inside quotes, told which characters are shown as they are. -/
def escapeChar (shown : Char → Bool) (quote : Char) (c : Char) : List Char :=
  match shortEscape? quote c with
  | some cs => cs
  | none =>
    if shown c then [c]
    else if c.toNat < 0x100 then '\\' :: 'x' :: hex 2 c.toNat
    else if c.toNat < 0x10000 then '\\' :: 'u' :: hex 4 c.toNat
    else '\\' :: 'U' :: hex 8 c.toNat

/-- One byte inside quotes. -/
def escapeByte (quote : Char) (b : UInt8) : List Char :=
  match shortEscape? quote (Char.ofNat b.toNat) with
  | some cs => cs
  | none =>
    if 0x20 ≤ b.toNat ∧ b.toNat < 0x7F then [Char.ofNat b.toNat]
    else '\\' :: 'x' :: hex 2 b.toNat

/-- A text between quotes, told which characters are shown as they are. -/
def quoteWith (shown : Char → Bool) (s : List Char) : List Char :=
  let q := quoteFor (s.contains '\'') (s.contains '"')
  q :: s.flatMap (escapeChar shown q) ++ [q]

/-- A text between quotes. -/
def quoteText (s : List Char) : List Char := quoteWith isPrintable s

/-- A text between quotes, in ASCII only. -/
def quoteAscii (s : List Char) : List Char :=
  quoteWith (fun c => isPrintable c && decide (c.toNat < 0x80)) s

/-- Bytes between quotes, marked with a `b`. -/
def quoteBytes (bs : Bytes) : List Char :=
  let q := quoteFor (bs.contains 0x27) (bs.contains 0x22)
  'b' :: q :: bs.flatMap (escapeByte q) ++ [q]

/-- Bytes of an array between quotes, marked with a `b`. Single quotes are escaped whichever quote
stands around the bytes. -/
def quoteByteArray (bs : Bytes) : List Char :=
  let q := quoteFor (bs.contains 0x27) (bs.contains 0x22)
  'b' :: q :: bs.flatMap (escapeByte '\'') ++ [q]

end Gcode.Text
