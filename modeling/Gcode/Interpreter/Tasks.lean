import Gcode.Interpreter.Streaming

/-!
Loads in the background. A task is started without running at once; it runs turn by turn, each task
in the order in which it came to wait. A task opens its source, loads it, closes what it opened, and
calls its callback with the lines or with the fault of loading that ended it. Any other fault ends
the task without the callback. A load gives up its turn, in the background or in the foreground, and
so a fault that ends it leaves it as `Fault.leaving` says.
-/

namespace Gcode

namespace Interpreter

/-- Opens what a task is to load. -/
def openOrigin (it : Interpreter) : Origin → Act Handle
  | .text x => do pure (.source (← openText x))
  | .file path => do pure (.source (← it.openFile path))
  | .stream h => pure h

/-- Closes the source of a task if the task opened it. -/
def release (task : Task) (h : Handle) : Act Unit :=
  if task.origin.owned then modify fun m => m.closeHandle h else pure ()

/-- The end of a task whose last action is done. -/
def stageAfter (result : Option (List Line)) : Except Fault Unit → Stage
  | .ok () => .done (.ok result)
  | .error f => .done (.error f.leaving)

/-- Runs a turn of a task whose source is open. -/
def runTurn (it : Interpreter) (task : Task) (h : Handle) (turn : Act Turn) : Act Stage := do
  match ← (it.announced turn).attempt with
  | .ok (.waiting load) => pure (.reading load)
  | .ok (.finished lines) => do
    release task h
    pure (stageAfter (some lines) (← (it.complete task.callback (.ok lines)).attempt))
  | .error f =>
    if f.isLoad then do
      let told ← (it.complete task.callback (.error f)).attempt
      release task h
      pure (stageAfter none told)
    else do
      release task h
      pure (.done (.error f.leaving))

/-- The first turn of a task. -/
def startTask (it : Interpreter) (task : Task) : Act Stage := do
  match ← (it.openOrigin task.origin).attempt with
  | .ok h => it.runTurn task h (it.begin h .null)
  | .error f =>
    if f.isLoad then do
      let report : Act Unit := do
        it.announceFault f
        it.complete task.callback (.error f)
      pure (stageAfter none (← report.attempt))
    else pure (.done (.error f.leaving))

/-- Ends a task that was cancelled. -/
def cancelTask (task : Task) : Act Stage := do
  match task.stage with
  | .reading load => release task (.source load.source)
  | _ => pure ()
  pure (.done (.error .cancelled))

/-- The next stage of a task. -/
def advance (it : Interpreter) (task : Task) : Act Stage :=
  match task.stage with
  | .done result => pure (.done result)
  | .scheduled => if task.cancelled then cancelTask task else it.startTask task
  | .reading load =>
    if task.cancelled then cancelTask task
    else it.runTurn task (.source load.source) (it.resume load)

/-- Gives a task its turn. It waits for the next one if it has not ended. -/
def runTask (it : Interpreter) (i : Nat) : Act Unit := do
  match (← get).tasks[i]? with
  | none => pure ()
  | some task => do
    let stage ← it.advance task
    modify fun m => m.updateTask i fun t => { t with stage }
    if !stage.isDone then modify fun m => { m with queue := m.queue ++ [i] }

/-- Gives some tasks a turn each. -/
def runTasks (it : Interpreter) : List Nat → Act Unit
  | [] => pure ()
  | i :: is => do
    it.runTask i
    it.runTasks is

/-- Gives every waiting task a turn. Those that come to wait in the meantime are left for the next
round. -/
def round (it : Interpreter) : Act Unit := do
  let waiting := (← get).queue
  modify fun m => { m with queue := [] }
  it.runTasks waiting

/-- Runs a number of rounds. -/
def rounds (it : Interpreter) : Nat → Act Unit
  | 0 => pure ()
  | n + 1 => do
    it.round
    it.rounds n

/-- Runs rounds until no task waits, `fuel` at most. -/
def settle (it : Interpreter) : (fuel : Nat) → Act Unit
  | 0 => pure ()
  | fuel + 1 => do
    if (← get).queue.isEmpty then pure ()
    else do
      it.round
      it.settle fuel

/-- Goes on with a load in the foreground: whenever it gives up its turn, the waiting tasks have
theirs. -/
def follow (it : Interpreter) : (fuel : Nat) → Turn → Act (List Line)
  | _, .finished lines => pure lines
  | 0, .waiting load => pure load.lines
  | fuel + 1, .waiting load => do
    it.round
    let turn ← it.announced (it.resume load)
    it.follow fuel turn

/-- Loads from a stream or a source in the foreground. -/
def readStream (it : Interpreter) (fuel : Nat) (h : Handle) (total : Literal) :
    Act (List Line) := Act.leaving do
  let turn ← it.announced (it.begin h total)
  it.follow fuel turn

/-- Cancels the task that the interpreter knows as its own. It ends at its next turn. Was there
anything left to cancel? -/
def cancel : Act Bool := do
  let m ← get
  match m.current, m.currentTask? with
  | some i, some task =>
    if task.stage.isDone then pure false
    else do
      set (m.updateTask i fun t => { t with cancelled := true })
      pure true
  | _, _ => throw .noTask

end Interpreter

end Gcode
