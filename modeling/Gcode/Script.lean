import Gcode.Interpreter.Tasks

/-!
Host code given by scripts. A script names behaviours, and a behaviour is a list of actions on the
interpreter; it may be limited to its first few calls. Whatever is called under a name (handler,
method, listener or callback) carries out the behaviour of that name.
-/

namespace Gcode

/-- What host code can do. -/
inductive Action where
  | raise (f : Fault)
  | reset
  | update (code : String)
  | setArg (letter : String) (value : Value)
  | delArg (letter : String)
  | listen (event listener : String) (once : Bool)
  | unlisten (event : String) (listener : Option String)
  | emit (event : String) (payload : List Literal)
  | close (stream : String)
  | loadString (x : Literal)
  | start (x : Literal) (callback : Option String)
  | setHandler (code : String) (h : Handler)
  | delHandler (code : String)

/-- A list of actions, for every call or only for the first few. -/
structure Behavior where
  actions : List Action
  times : Option Int := none

/-- The behaviours of host code, and the streams that it knows by name. -/
structure Script where
  behaviors : Table Behavior := ∅
  handles : Table Handle := ∅

/-- The name under which host code was called. -/
def Entry.caller? : Entry → Option String
  | .handler id _ => some id
  | .method m _ => m.script
  | .listener id _ => some id
  | .callback id _ => some id
  | .lineDone id _ _ _ => some id
  | _ => none

namespace Interpreter

/-- Sets a handler. -/
def setHandler (code : String) (h : Handler) : Act Unit :=
  modify fun m => { m with handlers := m.handlers.set code h }

/-- Removes a handler. -/
def delHandler (code : String) : Act Unit :=
  modify fun m => { m with handlers := m.handlers.erase code }

end Interpreter

namespace Script

/-- What a name stands for. -/
def handle (script : Script) (stream : String) : Act Handle :=
  match script.handles.get? stream with
  | some h => pure h
  | none => throw (.unknownName stream)

/-- Closes the stream of a name. A stream that cannot be closed is a fault here; behind a source it
is left open instead. -/
def close (script : Script) (stream : String) : Act Unit := do
  match ← script.handle stream with
  | .missing => throw (.notClosable Literal.null.typeName)
  | .unreadable type => throw (.notClosable type)
  | .source i => modify fun m => m.closeSource i
  | .stream i => do
    let s ← Interpreter.streamAt i
    if s.closable then modify fun m => m.updateStream i Stream.close
    else throw (.notCallable Literal.null.typeName)

/-- Carries out one action. Gives the arguments as it leaves them. -/
def perform (script : Script) (it : Interpreter) (args : Args) : Action → Act Args
  | .raise f => throw f
  | .reset => do
    it.call .reset Interpreter.reset
    pure args
  | .update code => do
    Interpreter.setModal code
    pure args
  | .setArg letter value => pure (args.set letter value)
  | .delArg letter => pure (args.erase letter)
  | .listen event listener once => do
    it.listen event listener once
    pure args
  | .unlisten event listener => do
    it.unlisten event listener
    pure args
  | .emit event payload => do
    let heard ← it.emitNamed event (payload.map .plain)
    Act.enter (.emitted heard)
    pure args
  | .close stream => do
    script.close stream
    pure args
  | .loadString x => do
    let lines ← it.loadString x none
    Act.enter (.loaded lines.length)
    pure args
  | .start x callback => do
    it.schedule (.text x) callback
    pure args
  | .setHandler code h => do
    Interpreter.setHandler code h
    pure args
  | .delHandler code => do
    Interpreter.delHandler code
    pure args

/-- Carries out actions in order. -/
def performAll (script : Script) (it : Interpreter) (args : Args) : List Action → Act Args
  | [] => pure args
  | a :: as => do
    let args ← script.perform it args a
    script.performAll it args as

/-- Carries out the behaviour of a name, whose present call is in the journal already. -/
def behave (script : Script) (it : Interpreter) (id : String) (args : Args) : Act Args :=
  match script.behaviors.get? id with
  | none => pure args
  | some b => do
    let calls := (← get).journal.countP fun e => e.caller? = some id
    if b.times.all fun n => decide ((calls : Int) ≤ n) then script.performAll it args b.actions
    else pure args

/-- Host code that carries out the script. Calls may nest up to the given depth. -/
def host (script : Script) (it : Interpreter) : (depth : Nat) → Host
  | 0 => Host.silent
  | depth + 1 =>
    let it := { it with host := script.host it depth }
    { handler := fun id args => script.behave it id args
      method := fun m args =>
        match m.script with
        | some id => script.behave it id args
        | none => pure args
      listener := fun id _ => do let _ ← script.behave it id ∅
      callback := fun id _ => do let _ ← script.behave it id ∅
      lineDone := fun id _ _ => do let _ ← script.behave it id ∅ }

/-- How deep calls of scripted host code may nest. -/
def maxDepth : Nat := 1000

/-- The interpreter with the script as its host code. -/
def run (script : Script) (it : Interpreter) : Interpreter :=
  { it with host := script.host it maxDepth }

end Script

end Gcode
