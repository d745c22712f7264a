import Gcode.Fault

/-!
Settings from texts, such as the environment gives them. A switch is on or off by one of a few
words; anything else leaves it as it was.
-/

namespace Gcode

open Gcode.Text

namespace Settings

/-- The words that turn a switch on. -/
def onWords : List String := ["1", "true", "yes", "on"]

/-- The words that turn a switch off. -/
def offWords : List String := ["0", "false", "no", "off"]

/-- Reads a switch. White space around the word and the case of its letters do not matter; no other
letter has one of these as its lower case, so the case mapping of ASCII is enough. -/
def switch (default : Bool) : Option String → Bool
  | none => default
  | some raw =>
    let word := String.ofList ((trim raw.toList).map Char.toLower)
    if onWords.contains word then true
    else if offWords.contains word then false
    else default

end Settings

/-- The settings of the library. -/
structure Settings where
  chunkSize : Int
  encoding : String
  strict : Bool
  deriving DecidableEq, Repr

namespace Settings

/-- The settings that hold without any text. -/
def standard : Settings := ⟨65536, "utf-8", false⟩

/-- Reads the settings. A chunk size below one counts as one. -/
def read (chunkSize encoding strict : Option String) : Except Fault Settings :=
  let size : Except Fault Int :=
    match chunkSize with
    | none => .ok standard.chunkSize
    | some raw =>
      match Integer.read raw.toList with
      | .ok n => .ok n
      | .error r => .error (.badInteger raw r)
  size.map fun n => ⟨max 1 n, encoding.getD standard.encoding, switch standard.strict strict⟩

end Settings

/-- The version of the library. -/
def version : String := "0.1.0"

end Gcode
