import Gcode.Fault

/-!
Operations: what every interpreter does under a name of its own. A class may have a member of the
same name. In front of an operation a plain value takes its place, so that it cannot be called any
more; behind it, a method of its name leads to the operation, which is then given the arguments of a
command and nothing else.
-/

namespace Gcode

/-- What an interpreter does under a name. -/
inductive Operation where
  /-- Makes the command table of a new class. -/
  | define
  /-- Makes a new interpreter. -/
  | create
  | listCommands
  | interpret
  | reset
  | status
  | readStream
  /-- Reads a source to its end. -/
  | pump
  /-- Announces a line and carries it out. -/
  | deliver
  /-- Announces a fault of loading. -/
  | report
  /-- Runs a load in the background. -/
  | runLoad
  /-- Starts a load in the background. -/
  | schedule
  | startStream
  | startFile
  | startText
  /-- Loads a complete text. -/
  | loadText
  | loadFile
  | loadString
  /-- Tells whether an event is known. -/
  | checkEvent
  | listen
  | listenOnce
  | unlisten
  | listeners
  | emit
  deriving DecidableEq, Repr

namespace Operation

/-- All operations. -/
def all : List Operation :=
  [.define, .create, .listCommands, .interpret, .reset, .status, .readStream, .pump, .deliver,
   .report, .runLoad, .schedule, .startStream, .startFile, .startText, .loadText, .loadFile,
   .loadString, .checkEvent, .listen, .listenOnce, .unlisten, .listeners, .emit]

theorem mem_all (op : Operation) : op ∈ all := by
  cases op <;> decide

/-- The name of an operation. -/
def name : Operation → String
  | .define => "__init_subclass__"
  | .create => "__init__"
  | .listCommands => "list_command_methods"
  | .interpret => "interpret"
  | .reset => "reset"
  | .status => "get_status"
  | .readStream => "read_stream"
  | .pump => "_pump"
  | .deliver => "_process_line"
  | .report => "_fail"
  | .runLoad => "_run_load"
  | .schedule => "_schedule"
  | .startStream => "load_from_stream"
  | .startFile => "load_from_file"
  | .startText => "load_from_string"
  | .loadText => "_load_text_sync"
  | .loadFile => "load_from_file_sync"
  | .loadString => "load_from_string_sync"
  | .checkEvent => "_check_event"
  | .listen => "on"
  | .listenOnce => "once"
  | .unlisten => "off"
  | .listeners => "listeners"
  | .emit => "emit"

/-- Is it an operation on notices? -/
def isNotice : Operation → Bool
  | .checkEvent | .listen | .listenOnce | .unlisten | .listeners | .emit => true
  | _ => false

/-- The class of the operations on notices. -/
def notifierName : String := "LifecycleNotifier"

/-- The class of all other operations. -/
def interpreterName : String := "GcodeInterpreter"

/-- The name of an operation behind that of its class. -/
def fullName (op : Operation) : String :=
  (if op.isNotice then notifierName else interpreterName) ++ "." ++ op.name

/-- Does it take no arguments? -/
def takesNothing : Operation → Bool
  | .define | .listCommands | .reset | .status => true
  | _ => false

/-- Does it belong to the class, so that it can be called only when it is looked up? -/
def ofClass : Operation → Bool
  | .define | .listCommands => true
  | _ => false

/-- What it cannot do without, after its first argument. -/
def furtherArguments : Operation → List String
  | .pump => ["total"]
  | .deliver => ["results"]
  | .runLoad | .schedule => ["callback", "owned"]
  | .loadText => ["callback"]
  | .listen | .listenOnce => ["listener"]
  | _ => []

/-- Why an operation cannot be called with one argument, if it cannot. -/
def refusal? (op : Operation) : Option Fault :=
  if op.takesNothing then some (.tooManyArguments op.fullName)
  else if op.furtherArguments.isEmpty then none
  else some (.missingArguments op.fullName op.furtherArguments)

end Operation

end Gcode
