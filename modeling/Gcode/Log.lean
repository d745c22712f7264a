import Gcode.Log.Template

/-!
Log records: what the library says about its work, with a level and the part of the library that
says it. Records are kept in order; which of them are shown is for the reader of the log to decide.
-/

namespace Gcode

namespace Log

/-- How important a record is. -/
inductive Level where
  | trace
  | debug
  | info
  | warning
  | error
  deriving DecidableEq, Repr

/-- The number of a level. -/
def Level.number : Level → Nat
  | .trace => 5
  | .debug => 10
  | .info => 20
  | .warning => 30
  | .error => 40

/-- The name of a level. -/
def Level.name : Level → String
  | .trace => "TRACE"
  | .debug => "DEBUG"
  | .info => "INFO"
  | .warning => "WARNING"
  | .error => "ERROR"

/-- The part of the library that speaks. -/
inductive Channel where
  | lines
  | modal
  | dispatch
  | loading
  | sources
  | probe
  deriving DecidableEq, Repr

/-- A record. -/
structure Record where
  level : Level
  channel : Channel
  message : String
  deriving DecidableEq, Repr

/-- The least number of a record that is shown at a level. Level zero stands for no level, and then
warnings and errors are shown. -/
def threshold (level : Int) : Int := if level = 0 then Level.warning.number else level

/-- Is a record shown at a level? -/
def Record.shownAt (level : Int) (r : Record) : Bool := decide (threshold level ≤ r.level.number)

/-- A record of the lowest level, if it is shown at the given level; otherwise the template is not
even filled. -/
def trace (level : Int) (channel : Channel) (template : String) (args : List String) :
    Except Fault (List Record) :=
  if threshold level ≤ Level.trace.number then
    (Template.fill template args).map fun message => [⟨.trace, channel, message⟩]
  else .ok []

end Log

end Gcode
