import Gcode.Number.Shortest
import Gcode.Text.Quoted

/-!
Plain data: what a caller hands over as text, path or chunk, and what notices can carry. Much of it
is not what the library asks for, and then its type or its written form appears in a message.
-/

namespace Gcode

open Gcode.Text

/-- A value of plain data. -/
inductive Literal where
  | null
  | bool (b : Bool)
  | int (n : Int)
  | float (x : Binary64)
  | text (s : String)
  | bytes (b : Bytes)
  | byteArray (b : Bytes)
  | path (p : String)
  | list (items : List Literal)
  | dict (entries : List (String × Literal))
  deriving Repr, Inhabited

namespace Literal

/-- The name of a value's type in messages. -/
def typeName : Literal → String
  | .null => "NoneType"
  | .bool _ => "bool"
  | .int _ => "int"
  | .float _ => "float"
  | .text _ => "str"
  | .bytes _ => "bytes"
  | .byteArray _ => "bytearray"
  | .path _ => "PosixPath"
  | .list _ => "list"
  | .dict _ => "dict"

/-- Does the value count as nothing: zero, or without contents? -/
def isNothing : Literal → Bool
  | .null => true
  | .bool b => !b
  | .int n => n == 0
  | .float x => x.isZero
  | .text s => s.isEmpty
  | .bytes b | .byteArray b => b.isEmpty
  | .path _ => false
  | .list items => items.isEmpty
  | .dict entries => entries.isEmpty

/-- A text between quotes. -/
def quoted (s : String) : String := String.ofList (quoteText s.toList)

mutual

/-- The written form of a value. -/
def render : Literal → String
  | .null => "None"
  | .bool b => if b then "True" else "False"
  | .int n => String.ofList (Integer.render n)
  | .float x => String.ofList x.render
  | .text s => quoted s
  | .bytes b => String.ofList (quoteBytes b)
  | .byteArray b => "bytearray(" ++ String.ofList (quoteByteArray b) ++ ")"
  | .path p => "PosixPath(" ++ quoted p ++ ")"
  | .list items => "[" ++ ", ".intercalate (renderItems items) ++ "]"
  | .dict entries => "\x7b" ++ ", ".intercalate (renderEntries entries) ++ "\x7d"

/-- The written forms of the items of a list. -/
def renderItems : List Literal → List String
  | [] => []
  | x :: xs => render x :: renderItems xs

/-- The written forms of the entries of a dictionary. -/
def renderEntries : List (String × Literal) → List String
  | [] => []
  | (k, x) :: xs => (quoted k ++ ": " ++ render x) :: renderEntries xs

end

/-- A value as part of a message: a text stands as it is, anything else in its written form. -/
def display : Literal → String
  | .text s => s
  | .path p => p
  | x => x.render

end Literal

end Gcode
