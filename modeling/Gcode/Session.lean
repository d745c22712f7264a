import Gcode.Script

/-!
Sessions: a client that uses one interpreter step by step. Every step is answered with its result or
its fault, the calls of host code it led to, the modal command after it, and what was logged.
-/

namespace Gcode

/-- What a session describes as a stream. -/
inductive StreamBody where
  | missing
  /-- Something that cannot be read, by the name of its type. -/
  | unreadable (type : String)
  /-- What is to be kept in memory. -/
  | memory (x : Literal)
  | stream (s : Stream)

/-- A stream as a session describes it, which may be wrapped as a source at once. -/
structure StreamSpec where
  body : StreamBody
  /-- The total and the name of the source that it is wrapped in. -/
  wrap : Option (Literal × Literal) := none

/-- Adds a stream. -/
def Interpreter.addStream (s : Stream) : Act Handle := do
  let m ← get
  set (m.addStream s)
  pure (.stream m.streams.length)

/-- The command codes that methods of an interpreter answer to, in ascending order. -/
def Interpreter.commandCodes (it : Interpreter) : Except Fault (List String) :=
  match it.dialect.obstacle? .listCommands with
  | some f => .error f
  | none => .ok it.dialect.table.sortedNames

namespace StreamSpec

/-- What the description stands for before it is wrapped. -/
def place (spec : StreamSpec) : Act Handle :=
  match spec.body with
  | .missing => pure .missing
  | .unreadable type => pure (.unreadable type)
  | .memory x => do
    let s ← Act.ofExcept (Stream.ofLiteral x)
    Interpreter.addStream s
  | .stream s => Interpreter.addStream s

/-- Sets up the stream. -/
def setUp (spec : StreamSpec) : Act Handle := do
  let h ← spec.place
  match spec.wrap with
  | none => pure h
  | some (total, name) => do pure (.source (← Interpreter.wrap h total name))

/-- Sets up the streams of a session. -/
def setUpAll : List (String × StreamSpec) → Act (List (String × Handle))
  | [] => pure []
  | (id, spec) :: rest => do
    let h ← spec.setUp
    let hs ← setUpAll rest
    pure ((id, h) :: hs)

end StreamSpec

namespace Session

/-- A step of a session. -/
inductive Step where
  | loadString (x : Literal) (callback : Option String)
  | loadFile (path : Literal) (callback : Option String)
  | startText (x : Literal) (callback : Option String)
  | startFile (path : Literal) (callback : Option String)
  | startStream (stream : String) (callback : Option String)
  | readStream (stream : String) (total : Literal)
  | await
  | tick (rounds : Nat)
  | cancel
  | close (stream : String)
  | reset
  | update (code : String)
  | interpret (words : List Word)
  | dispatch (code : String) (args : Args)
  | status
  | listen (event listener : String) (once : Bool)
  | unlisten (event : String) (listener : Option String)
  | emit (event : String) (payload : List Literal)
  | listeners (event : String)
  | setHandler (code : String) (h : Handler)
  | nothing
  /-- A step that is at fault before anything is done. -/
  | refused (f : Fault)

/-- What an interpreter says about itself. -/
structure Status where
  modal : String
  handlers : List String
  methods : List String
  loading : Bool

/-- The result of a step. -/
inductive Answer where
  | lines (ls : List Line)
  | accepted
  | tasks (results : List (Except Fault (Option (List Line))))
  | done (flags : List Bool)
  | cancelled (effective : Bool)
  | nothing
  | commands (cs : List Command)
  | dispatched (called : Nat) (args : Args)
  | status (s : Status)
  | emitted (heard : Bool)
  | listeners (rs : List Registration)

/-- What a step led to. -/
structure Report where
  outcome : Except Fault Answer
  trace : List Entry
  modal : String
  log : List Log.Record

/-- How many rounds a session waits for its tasks. -/
def patience : Nat := 1000000

/-- The result of a task; one that has not ended counts as cancelled. -/
def resultOf (task : Task) : Except Fault (Option (List Line)) :=
  match task.stage with
  | .done result => result
  | _ => .error .cancelled

/-- Carries out a step. `awaited` tasks have been reported before. -/
def perform (script : Script) (it : Interpreter) (awaited : Nat) : Step → Act Answer
  | .loadString x callback => do pure (.lines (← it.loadString x callback))
  | .loadFile path callback => do pure (.lines (← it.loadFile path callback))
  | .startText x callback => do
    it.schedule (.text x) callback
    pure .accepted
  | .startFile path callback => do
    it.schedule (.file path) callback
    pure .accepted
  | .startStream stream callback => do
    let h ← script.handle stream
    it.schedule (.stream h) callback
    pure .accepted
  | .readStream stream total => do
    let h ← script.handle stream
    pure (.lines (← it.readStream patience h total))
  | .await => do
    it.settle patience
    pure (.tasks (((← get).tasks.drop awaited).map resultOf))
  | .tick n => do
    it.rounds n
    pure (.done ((← get).tasks.map (·.stage.isDone)))
  | .cancel => do pure (.cancelled (← Interpreter.cancel))
  | .close stream => do
    script.close stream
    pure .nothing
  | .reset => do
    it.call .reset Interpreter.reset
    pure .nothing
  | .update code => do
    Interpreter.setModal code
    pure .nothing
  | .interpret ws => do pure (.commands (← it.interpret ws))
  | .dispatch code args => do
    let (called, args) ← it.dispatch ⟨code, args⟩
    pure (.dispatched called args)
  | .status => it.call .status do
    let codes ← Act.ofExcept it.commandCodes
    let m ← get
    pure (.status ⟨m.modal, m.handlers.sortedNames, codes, m.loading⟩)
  | .listen event listener once => do
    it.listen event listener once
    pure .accepted
  | .unlisten event listener => do
    it.unlisten event listener
    pure .accepted
  | .emit event payload => do pure (.emitted (← it.emitNamed event (payload.map .plain)))
  | .listeners event => do pure (.listeners (← it.listeners event))
  | .setHandler code h => do
    Interpreter.setHandler code h
    pure .nothing
  | .nothing => pure .nothing
  | .refused f => throw f

/-- How many tasks have been reported after a step. -/
def awaitedAfter (m : Machine) (awaited : Nat) : Step → Nat
  | .await => m.tasks.length
  | _ => awaited

/-- Carries out steps from a state and reports on each. -/
def runFrom (script : Script) (it : Interpreter) (m : Machine) (awaited : Nat) :
    List Step → List Report
  | [] => []
  | s :: rest =>
    let (outcome, m') : Except Fault Answer × Machine :=
      match perform script it awaited s m with
      | .ok a m' => (.ok a, m')
      | .error f m' => (.error f, m')
    let report : Report :=
      ⟨outcome, m'.journal.drop m.journal.length, m'.modal, m'.log.drop m.log.length⟩
    report :: runFrom script it m' (awaitedAfter m' awaited s) rest

end Session

/-- A session: an interpreter with its host code, and what is done with it. -/
structure Session where
  interpreter : Interpreter
  /-- Are lines with stray text refused? If nothing is said, it is as usual. -/
  strict : Option Bool := none
  handlers : Table Handler := ∅
  streams : List (String × StreamSpec) := []
  behaviors : Table Behavior := ∅
  steps : List Session.Step

/-- Are lines with stray text refused when a session begins? -/
def Session.strictAtFirst (s : Session) : Bool := s.strict.getD s.interpreter.strictByDefault

/-- Runs a session. Setting up its streams may fail. -/
def Session.run (s : Session) : Except Fault (List Session.Report) :=
  match StreamSpec.setUpAll s.streams { handlers := s.handlers, strict := s.strictAtFirst } with
  | .error f _ => .error f
  | .ok handles m =>
    let script : Script := { behaviors := s.behaviors, handles := Table.ofList handles }
    .ok (Session.runFrom script (script.run s.interpreter) m 0 s.steps)

end Gcode
