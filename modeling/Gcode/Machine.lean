import Gcode.Command
import Gcode.Dialect
import Gcode.Event
import Gcode.LineReader
import Gcode.Log
import Gcode.Stream

/-!
The state of an interpreter and of the loads it runs, and the actions on it. An action may end in a
fault, and what it did before stays done. Code outside the library (handlers, methods, listeners and
callbacks) is a parameter: a `Host` says what each of them does, which may be any action at all.
Every call of such code is entered in the journal before it is made.
-/

namespace Gcode

open Gcode.Text

/-- What became of a load: its lines, or the fault that ended it. -/
abbrev Outcome := Except Fault (List Line)

/-- A call of host code, or what host code reports of its own work. -/
inductive Entry where
  | handler (id : String) (args : Args)
  | method (m : Method) (args : Args)
  | listener (id : String) (payload : List Payload)
  | callback (id : String) (outcome : Outcome)
  | lineDone (id : String) (index : Nat) (line : Line) (modal : String)
  | emitted (heard : Bool)
  | loaded (count : Nat)

/-- What is entered in the handler table: host code, or something that cannot be called. -/
inductive Handler where
  | callable (id : String)
  | inert
  deriving DecidableEq, Repr

/-- What a load that gave up its turn goes on with. -/
inductive Wait where
  /-- The data of a read that has been made. -/
  | taken (data : Literal)
  /-- A read that takes its data after some more turns. -/
  | turns (left : Nat)
  deriving Repr

/-- A load between two turns. -/
structure Load where
  /-- The number of its source. -/
  source : Nat
  reader : LineReader
  decoder : Decoder
  /-- The lines delivered so far. -/
  lines : List Line := []
  wait : Wait
  deriving Repr

/-- What a task is to load. -/
inductive Origin where
  | text (x : Literal)
  | file (path : Literal)
  | stream (h : Handle)
  deriving Repr

/-- A source that the task itself opens is its own to close. -/
def Origin.owned : Origin → Bool
  | .stream _ => false
  | _ => true

/-- The operation that starts a load of an origin. -/
def Origin.operation : Origin → Operation
  | .text _ => .startText
  | .file _ => .startFile
  | .stream _ => .startStream

/-- How far a task has come. A task ends with the lines it loaded, with nothing after a fault that
was reported, or with a fault. -/
inductive Stage where
  | scheduled
  | reading (load : Load)
  | done (result : Except Fault (Option (List Line)))

/-- Has the task ended? -/
def Stage.isDone : Stage → Bool
  | .done _ => true
  | _ => false

/-- A load that runs turn by turn. -/
structure Task where
  origin : Origin
  callback : Option String
  stage : Stage := .scheduled
  cancelled : Bool := false

/-- The state of an interpreter. -/
structure Machine where
  /-- Are lines with stray text refused? -/
  strict : Bool := false
  /-- The code that groups without a command word continue. -/
  modal : String := ""
  handlers : Table Handler := ∅
  registry : Registry := {}
  streams : List Stream := []
  sources : List Source := []
  tasks : List Task := []
  /-- The number of the task that the interpreter knows as its own: the last one started. -/
  current : Option Nat := none
  /-- The tasks that wait for a turn, in order. -/
  queue : List Nat := []
  journal : List Entry := []
  log : List Log.Record := []

/-- An action on the state of an interpreter. -/
abbrev Act := EStateM Fault Machine

namespace Act

/-- Runs an action and hands over its fault, if there is one. -/
def attempt {α : Type} (a : Act α) : Act (Except Fault α) := fun m =>
  match a m with
  | .ok x m' => .ok (.ok x) m'
  | .error f m' => .ok (.error f) m'

/-- Runs an action as something that gives up its turn, whose fault leaves it as `Fault.leaving`
says. -/
def leaving {α : Type} (a : Act α) : Act α := fun m =>
  match a m with
  | .ok x m' => .ok x m'
  | .error f m' => .error f.leaving m'

/-- The value, or the fault. -/
def ofExcept {α : Type} : Except Fault α → Act α
  | .ok x => pure x
  | .error f => throw f

/-- Writes a log record. -/
def log (level : Log.Level) (channel : Log.Channel) (message : String) : Act Unit :=
  modify fun m => { m with log := m.log ++ [⟨level, channel, message⟩] }

/-- Makes an entry in the journal. -/
def enter (e : Entry) : Act Unit := modify fun m => { m with journal := m.journal ++ [e] }

end Act

/-- Code outside the library. Handlers and methods give back the arguments as they leave them. -/
structure Host where
  handler : String → Args → Act Args
  method : Method → Args → Act Args
  listener : String → List Payload → Act Unit
  callback : String → Outcome → Act Unit
  lineDone : String → Line → Nat → Act Unit
  /-- The listener that a listener carries under the name under which one that is due only once
  carries the listener it was made from. -/
  carried : String → Option String := fun _ => none

/-- Host code that does nothing. -/
def Host.silent : Host where
  handler _ args := pure args
  method _ args := pure args
  listener _ _ := pure ()
  callback _ _ := pure ()
  lineDone _ _ _ := pure ()

namespace Machine

/-- The task that the interpreter knows as its own. -/
def currentTask? (m : Machine) : Option Task := m.current.bind (m.tasks[·]?)

/-- Is that task still running? -/
def loading (m : Machine) : Bool := m.currentTask?.any (!·.stage.isDone)

/-- Changes the stream of a number. -/
def updateStream (m : Machine) (i : Nat) (f : Stream → Stream) : Machine :=
  { m with streams := m.streams.modify i f }

/-- Changes the source of a number. -/
def updateSource (m : Machine) (i : Nat) (f : Source → Source) : Machine :=
  { m with sources := m.sources.modify i f }

/-- Changes the task of a number. -/
def updateTask (m : Machine) (i : Nat) (f : Task → Task) : Machine :=
  { m with tasks := m.tasks.modify i f }

/-- Closes the stream behind a source. -/
def closeSource (m : Machine) (i : Nat) : Machine :=
  match m.sources[i]? with
  | some src => m.updateStream src.stream Stream.close
  | none => m

/-- The sources that data of a source passes, from the stream outwards. -/
def passage (m : Machine) (i : Nat) : List Nat :=
  ((m.sources[i]?.map (·.inner)).getD []) ++ [i]

/-- The names of some sources. -/
def sourceNames (m : Machine) (is : List Nat) : List String :=
  is.filterMap fun i => m.sources[i]?.map (·.title)

/-- Counts what sources have passed on. -/
def countRead (m : Machine) (is : List Nat) (length : Nat) : Machine :=
  is.foldl (fun m i => m.updateSource i fun s => { s with consumed := s.consumed + length }) m

/-- Closes the source that a handle stands for, if it is one. -/
def closeHandle (m : Machine) : Handle → Machine
  | .source i => m.closeSource i
  | _ => m

/-- Adds a stream, which gets the next number. -/
def addStream (m : Machine) (s : Stream) : Machine := { m with streams := m.streams ++ [s] }

/-- Adds a source, which gets the next number. -/
def addSource (m : Machine) (s : Source) : Machine := { m with sources := m.sources ++ [s] }

end Machine

end Gcode
