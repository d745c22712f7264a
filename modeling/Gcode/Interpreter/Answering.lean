import Gcode.Interpreter.Basic

/-!
Starting loads in the background, and operations that answer to a command. A command may lead to an
operation of the interpreter, because that stands in front of a method of the same name. The
operation is then given the arguments of the command for its first argument, which is hardly ever
what it asks for.
-/

namespace Gcode

namespace Interpreter

/-! ### Background loads -/

/-- Calls the callback of a load. -/
def complete (it : Interpreter) (callback : Option String) (outcome : Outcome) : Act Unit :=
  match callback with
  | none => pure ()
  | some id => do
    Act.enter (.callback id outcome)
    it.host.callback id outcome

/-- Why no load can be started: there is no event loop, or nothing to run on it. -/
def obstacleToStart? (it : Interpreter) : Option Fault :=
  if it.hasLoop then it.dialect.obstacle? .runLoad else some .noLoop

/-- Starts a load in the background. If that cannot be done, the callback is told so at once. -/
def schedule (it : Interpreter) (origin : Origin) (callback : Option String) : Act Unit :=
  it.call origin.operation <| it.call .schedule do
    if (← get).loading then
      Act.log .warning .loading "Starting a load while the previous one is still running"
    match it.obstacleToStart? with
    | none =>
      modify fun m => { m with
        tasks := m.tasks ++ [{ origin, callback }]
        current := some m.tasks.length
        queue := m.queue ++ [m.tasks.length] }
    | some f => do
      Act.log .error .loading ("Failed to start G-code load: " ++ f.text)
      it.complete callback (.error f)

/-! ### Operations as answers to commands -/

/-- Makes the interpreter anew, with entries that cannot be called for its handlers. -/
def renew (it : Interpreter) (args : Args) : Act Unit :=
  modify fun m => { m with
    strict := it.strictByDefault
    modal := ""
    handlers := Table.ofList (args.names.map fun n => (n, .inert))
    registry := { next := m.registry.next }
    current := none }

/-- Carries out an operation that is given the arguments of a command. -/
def answer (it : Interpreter) (op : Operation) (args : Args) : Act Unit :=
  let given := Args.toLiteral args
  match op.refusal? with
  | some f => throw f
  | none =>
    match op with
    | .create => it.renew args
    | .interpret => throw (.noWords given.typeName)
    | .report => it.report given.render (.plain given)
    | .startStream => it.schedule (.stream (.unreadable given.typeName)) none
    | .startFile => it.schedule (.file given) none
    | .startText => it.schedule (.text given) none
    | .loadFile => throw (.badPath given.render)
    | .loadString => it.call .loadText (throw (.notJoinable given.typeName))
    | .checkEvent => throw (.unknownEvent given.render)
    | .unlisten | .listeners | .emit => it.call .checkEvent (throw (.unknownEvent given.render))
    | _ => pure ()

end Interpreter

end Gcode
