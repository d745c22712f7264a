import Gcode.Interpreter.Answering

/-!
Interpretation. A line is carried out group by group: the group is resolved against the modal
command and dispatched, first to the handler for its code and then to the method, before the next
group is looked at. The loaders of this module read a complete text before the first of its lines is
carried out.
-/

namespace Gcode

open Gcode.Text

namespace Interpreter

/-! ### Dispatch -/

/-- Calls the handler of a code, if there is one that can be called. -/
def callHandler (it : Interpreter) (code : String) (args : Args) : Act (Nat × Args) := do
  match (← get).handlers.get? code with
  | some (.callable id) =>
    Act.log .trace .dispatch ("dispatch_handler code=" ++ code)
    Act.enter (.handler id args)
    let args ← it.host.handler id args
    pure (1, args)
  | _ => pure (0, args)

/-- Says which method a code is dispatched to. -/
def logMethod (code name : String) : Act Unit :=
  Act.log .trace .dispatch ("dispatch_method code=" ++ code ++ " method=" ++ name)

/-- Calls the method of a code, if there is something that can be called. -/
def callMethod (it : Interpreter) (code : String) (args : Args) : Act (Nat × Args) :=
  match it.dialect.attribute? code with
  | some (name, .method m) => do
    logMethod code name
    Act.enter (.method m args)
    let args ← it.host.method m args
    pure (1, args)
  | some (name, .operation op) => do
    logMethod code name
    it.answer op args
    pure (1, args)
  | some (name, .inherent refusal) => do
    logMethod code name
    match refusal with
    | some message => throw (.raised .type message none)
    | none => pure (1, args)
  | some (name, .slot) => do
    let f := Dialect.emptySlot it.dialect.owner it.dialect.attributes name
    if f.kind ≠ .attribute then throw f
    pure (0, args)
  | _ => pure (0, args)

/-- Calls the handler and then the method of a command. Both get the same arguments, which they may
change. The result says how many were called and what became of the arguments. Without a code
nothing is called. -/
def dispatch (it : Interpreter) (c : Command) : Act (Nat × Args) :=
  if c.code.isEmpty then do
    Act.log .trace .dispatch
      ("dispatch_skip reason=no_modal_command args=" ++ (Args.toLiteral c.args).render)
    pure (0, c.args)
  else do
    let (handlers, args) ← it.callHandler c.code c.args
    let (methods, args) ← it.callMethod c.code args
    if handlers + methods = 0 then Act.log .trace .dispatch ("dispatch_unhandled code=" ++ c.code)
    pure (handlers + methods, args)

/-! ### Lines -/

/-- Reports what was found about checksums. -/
def warn (warnings : List String) : Act Unit :=
  modify fun m => { m with log := m.log ++ warnings.map fun w => ⟨.warning, .lines, w⟩ }

/-- Resolves a group against the modal command, which becomes that of the group. -/
def resolveGroup (g : Group) : Act Command := do
  let c := g.resolve (← get).modal
  setModal c.code
  pure c

/-- Resolves a group given by its words, of which there must be one. -/
def resolveWords (ws : List Word) : Act Command :=
  match Group.ofWords? ws with
  | some g => resolveGroup g
  | none => throw .emptyGroup

/-- Resolves groups in order without carrying them out. -/
def resolveGroups : List Group → Act (List Command)
  | [] => pure []
  | g :: gs => do
    let c ← resolveGroup g
    let cs ← resolveGroups gs
    pure (c :: cs)

/-- Resolves the words of a line without carrying them out. -/
def resolve (ws : List Word) : Act (List Command) := resolveGroups (Group.partition ws)

/-- Reads a line leniently and resolves it. -/
def resolveLine (text : String) : Act (List Command) := do
  warn (Line.warning? text.toList none).toList
  match ← Act.ofExcept (Line.parse false text.toList none) with
  | some line => resolve line.words
  | none => throw (.noWords Literal.null.typeName)

/-- Carries out groups, each before the next is resolved. -/
def interpretGroups (it : Interpreter) : List Group → Act (List Command)
  | [] => pure []
  | g :: gs => do
    let c ← resolveGroup g
    let (_, args) ← it.dispatch c
    let rest ← it.interpretGroups gs
    pure ({ c with args } :: rest)

/-- Carries out the words of a line. The commands have their arguments as host code left them. -/
def interpret (it : Interpreter) (ws : List Word) : Act (List Command) :=
  it.call .interpret (it.interpretGroups (Group.partition ws))

/-! ### Loading at once -/

/-- The lines of a reading, or its fault. -/
def linesOf (r : Reading) : Act (List Line) := do
  warn r.warnings
  Act.ofExcept r.lines

/-- Says that a load is complete. -/
def logLoaded (count : Nat) : Act Unit := do
  let modal := (← get).modal
  Act.log .debug .loading
    ("Loaded " ++ toString count ++ " lines, modal command " ++
      (if modal.isEmpty then "-" else modal))

/-- Calls the line callback. -/
def lineDone (it : Interpreter) (callback : Option String) (line : Line) (index : Nat) : Act Unit :=
  match callback with
  | none => pure ()
  | some id => do
    Act.enter (.lineDone id index line (← get).modal)
    it.host.lineDone id line index

/-- Carries out lines, the first of which has the given index. -/
def runLines (it : Interpreter) (callback : Option String) (index : Nat) : List Line → Act Unit
  | [] => pure ()
  | l :: ls => do
    let _ ← it.interpret l.words
    it.lineDone callback l index
    it.runLines callback (index + 1) ls

/-- Loads a text: all of it is read, then its lines are carried out. -/
def loadText (it : Interpreter) (text : List Char) (callback : Option String) : Act (List Line) :=
  it.call .loadText do
    let (reading, _) := LineReader.program { strict := (← get).strict } text
    let lines ← linesOf reading
    it.runLines callback 0 lines
    logLoaded lines.length
    pure lines

/-- Loads text or bytes at once. -/
def loadString (it : Interpreter) (x : Literal) (callback : Option String) : Act (List Line) :=
  it.call .loadString (match x with
    | .null => it.loadText [] callback
    | .text s => it.loadText s.toList callback
    | .bytes b | .byteArray b => do
      let text ← Act.ofExcept (decodeAll it.encoding b)
      it.loadText text callback
    | x => it.call .loadText (throw (.notJoinable x.typeName)))

/-- Loads a file at once. -/
def loadFile (it : Interpreter) (path : Literal) (callback : Option String) : Act (List Line) :=
  it.call .loadFile do
    let text ← Act.ofExcept (it.disk.readText path it.encoding)
    it.loadText text callback

end Interpreter

end Gcode
