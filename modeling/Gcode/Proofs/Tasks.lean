import Gcode.Proofs.Notices

/-!
The turns of tasks. A task opens what it loads in its first turn and goes on with its load in the
later ones. What a turn comes to is entered as the stage of the task, which waits for another turn
unless it has ended; a task that has ended does nothing any more.
-/

namespace Gcode

open Act

/-- The machine after a task has come to a stage. The task waits for its next turn unless it has
ended. -/
def Machine.enterStage (m : Machine) (i : Nat) (stage : Stage) : Machine :=
  let m' := m.updateTask i fun t => { t with stage }
  if stage.isDone then m' else { m' with queue := m.queue ++ [i] }

/-- Besides the stage only the queue may change. -/
theorem Machine.enterStage_eq (m : Machine) (i : Nat) (stage : Stage) :
    ∃ queue, m.enterStage i stage = { m.updateTask i (fun t => { t with stage }) with queue } := by
  rw [enterStage]
  split
  · exact ⟨_, rfl⟩
  · exact ⟨_, rfl⟩

theorem Machine.updateTask_self {m : Machine} {i : Nat} {task : Task}
    (htask : m.tasks[i]? = some task) :
    (m.updateTask i fun t => { t with stage := task.stage }) = m := by
  have htasks : m.tasks.modify i (fun t => { t with stage := task.stage }) = m.tasks := by
    refine List.ext_getElem? fun j => ?_
    rw [List.getElem?_modify]
    by_cases hj : i = j
    · subst hj
      simp [htask]
    · simp [hj]
  rw [updateTask, htasks]

namespace Interpreter

variable {it : Interpreter} {m : Machine}

/-! ### Turns that are due -/

/-- The turn that is due to a task, with the handle of what it loads and the machine on which the
turn is taken. The first turn comes after what it loads has been opened. -/
inductive Due (it : Interpreter) (m : Machine) (task : Task) : Handle → Act Turn → Machine → Prop
  | first {h : Handle} {m₁ : Machine} : task.stage = .scheduled → task.cancelled = false →
      it.openOrigin task.origin m = .ok h m₁ → Due it m task h (it.begin h .null) m₁
  | later {load : Load} : task.stage = .reading load → task.cancelled = false →
      Due it m task (.source load.source) (it.resume load) m

/-- The machine after a task has closed what it opened. -/
def released (task : Task) (h : Handle) (m : Machine) : Machine :=
  if task.origin.owned then m.closeHandle h else m

theorem release_eq (task : Task) (h : Handle) (m : Machine) :
    release task h m = .ok () (released task h m) := by
  rw [release, released]
  split <;> rfl

/-! ### What a turn comes to -/

theorem stageAfter_eq (result : Option (List Line)) (told : Except Fault Unit) :
    stageAfter result told = .done ((told.mapError Fault.leaving).map fun _ => result) := by
  cases told <;> rfl

theorem stageAfter_isDone (result : Option (List Line)) (told : Except Fault Unit) :
    (stageAfter result told).isDone = true := by
  rw [stageAfter_eq]
  rfl

theorem advance_cancelled {task : Task} (hgoing : task.stage.isDone = false)
    (hcancelled : task.cancelled = true) : it.advance task = cancelTask task := by
  rw [advance]
  cases hstage : task.stage with
  | done r =>
    rw [hstage] at hgoing
    cases hgoing
  | scheduled | reading load => simp only [hcancelled, if_true]

theorem advance_scheduled {task : Task} (hstage : task.stage = .scheduled)
    (hcancelled : task.cancelled = false) : it.advance task = it.startTask task := by
  rw [advance, hstage]
  simp only [hcancelled, Bool.false_eq_true, if_false]

theorem advance_reading {task : Task} {load : Load} (hstage : task.stage = .reading load)
    (hcancelled : task.cancelled = false) :
    it.advance task = it.runTurn task (.source load.source) (it.resume load) := by
  rw [advance, hstage]
  simp only [hcancelled, Bool.false_eq_true, if_false]

theorem startTask_opened {task : Task} {h : Handle} {m₁ : Machine}
    (hopen : it.openOrigin task.origin m = .ok h m₁) :
    it.startTask task m = it.runTurn task h (it.begin h .null) m₁ := by
  rw [startTask, bind_ok (attempt_ok hopen)]

/-- A task whose turn is due takes it. -/
theorem Due.advance_eq {task : Task} {h : Handle} {turn : Act Turn} {m₁ : Machine}
    (hdue : it.Due m task h turn m₁) : it.advance task m = it.runTurn task h turn m₁ := by
  cases hdue with
  | first hstage hcancelled hopen => rw [advance_scheduled hstage hcancelled, startTask_opened hopen]
  | later hstage hcancelled => rw [advance_reading hstage hcancelled]

theorem announced_waiting {turn : Act Turn} {load : Load} {m' : Machine}
    (h : turn m = .ok (.waiting load) m') : it.announced turn m = .ok (.waiting load) m' :=
  bind_ok (attempt_ok h) _

theorem announced_finished {turn : Act Turn} {ls : List Line} {m' : Machine}
    (h : turn m = .ok (.finished ls) m') :
    it.announced turn m = (it.succeeded ls >>= fun ls => pure (.finished ls)) m' := by
  rw [announced, bind_ok (attempt_ok h), succeeded]
  simp only [bind_assoc, pure_bind]

theorem announced_error {turn : Act Turn} {f : Fault} {m' : Machine} (h : turn m = .error f m') :
    it.announced turn m = it.failed f m' :=
  bind_ok (attempt_error h) _

/-- A load ends with its fault, announced or not, if nobody fails over the notice. -/
theorem failed_eq {α : Type} {f : Fault} {m' : Machine} (h : it.announceFault f m = .ok () m') :
    (it.failed f : Act α) m = .error f (if f.isLoad then m' else m) := by
  rw [failed]
  split
  · exact bind_ok h _
  · rfl

section Turn

variable {task : Task} {h : Handle} {turn : Act Turn} {m₁ m' : Machine} {f : Fault}
  {told : Except Fault Unit}

theorem runTurn_waiting {load : Load} (hturn : it.announced turn m = .ok (.waiting load) m') :
    it.runTurn task h turn m = .ok (.reading load) m' := by
  rw [runTurn, bind_ok (attempt_ok hturn)]
  rfl

/-- The lines of a load are given to the callback after the source was closed. -/
theorem runTurn_finished {ls : List Line} (hturn : it.announced turn m = .ok (.finished ls) m₁)
    (htold : (it.complete task.callback (.ok ls)).attempt (released task h m₁) = .ok told m') :
    it.runTurn task h turn m = .ok (stageAfter (some ls) told) m' := by
  rw [runTurn, bind_ok (attempt_ok hturn)]
  dsimp only
  rw [bind_ok (release_eq task h m₁), bind_ok htold]
  rfl

/-- A fault of loading is told to the callback before the source is closed. -/
theorem runTurn_failing (hturn : it.announced turn m = .error f m₁) (hf : f.isLoad = true)
    (htold : (it.complete task.callback (.error f)).attempt m₁ = .ok told m') :
    it.runTurn task h turn m = .ok (stageAfter none told) (released task h m') := by
  rw [runTurn, bind_ok (attempt_error hturn)]
  simp only [hf, if_true]
  rw [bind_ok htold, bind_ok (release_eq task h m')]
  rfl

/-- Any other fault ends the task without a word. -/
theorem runTurn_passing (hturn : it.announced turn m = .error f m') (hf : f.isLoad = false) :
    it.runTurn task h turn m = .ok (.done (.error f.leaving)) (released task h m') := by
  rw [runTurn, bind_ok (attempt_error hturn)]
  simp only [hf, Bool.false_eq_true, if_false]
  rw [bind_ok (release_eq task h m')]
  rfl

/-- A fault of loading before the load has begun is announced, and told to the callback unless that
fails. -/
theorem startTask_failing (hopen : it.openOrigin task.origin m = .error f m₁)
    (hf : f.isLoad = true)
    (htold : attempt (it.announceFault f >>= fun _ => it.complete task.callback (.error f)) m₁ =
      .ok told m') : it.startTask task m = .ok (stageAfter none told) m' := by
  rw [startTask, bind_ok (attempt_error hopen)]
  simp only [hf, if_true]
  rw [bind_ok htold]
  rfl

theorem startTask_passing (hopen : it.openOrigin task.origin m = .error f m')
    (hf : f.isLoad = false) : it.startTask task m = .ok (.done (.error f.leaving)) m' := by
  rw [startTask, bind_ok (attempt_error hopen)]
  simp only [hf, Bool.false_eq_true, if_false]
  rfl

end Turn

/-- The turn of a task leads to its next stage. -/
theorem runTask_eq {i : Nat} {task : Task} (htask : m.tasks[i]? = some task) {stage : Stage}
    {m' : Machine} (h : it.advance task m = .ok stage m') :
    it.runTask i m = .ok () (m'.enterStage i stage) := by
  rw [runTask, get_bind, htask]
  dsimp only
  rw [bind_ok h]
  cases stage <;> rfl

/-- A turn that does not end the load leaves the task waiting, and that is all. -/
theorem Due.runTask_waiting {i : Nat} {task : Task} {h : Handle} {turn : Act Turn} {m₁ m' : Machine}
    {load : Load} (hdue : it.Due m task h turn m₁) (htask : m.tasks[i]? = some task)
    (hturn : turn m₁ = .ok (.waiting load) m') :
    it.runTask i m = .ok () (m'.enterStage i (.reading load)) := by
  rw [runTask_eq htask (hdue.advance_eq.trans (runTurn_waiting (announced_waiting hturn)))]

/-- A fault that passes ends the task. -/
theorem Due.runTask_passing {i : Nat} {task : Task} {h : Handle} {turn : Act Turn} {m₁ m' : Machine}
    {f : Fault} (hdue : it.Due m task h turn m₁) (htask : m.tasks[i]? = some task)
    (hturn : it.announced turn m₁ = .error f m') (hf : f.isLoad = false) :
    it.runTask i m = .ok () ((released task h m').enterStage i (.done (.error f.leaving))) := by
  rw [runTask_eq htask (hdue.advance_eq.trans (runTurn_passing hturn hf))]

/-- A fault of loading is told to the callback before the task ends. -/
theorem Due.runTask_failing {i : Nat} {task : Task} {h : Handle} {turn : Act Turn}
    {m₁ m₂ m' : Machine} {f : Fault} {told : Except Fault Unit} (hdue : it.Due m task h turn m₁)
    (htask : m.tasks[i]? = some task) (hturn : it.announced turn m₁ = .error f m₂)
    (hf : f.isLoad = true)
    (htold : (it.complete task.callback (.error f)).attempt m₂ = .ok told m') :
    it.runTask i m = .ok () ((released task h m').enterStage i (stageAfter none told)) := by
  rw [runTask_eq htask (hdue.advance_eq.trans (runTurn_failing hturn hf htold))]

/-- A task that has ended does nothing in a turn. -/
theorem runTask_done {i : Nat} {task : Task} (htask : m.tasks[i]? = some task)
    {r : Except Fault (Option (List Line))} (hdone : task.stage = .done r) :
    it.runTask i m = .ok () m := by
  have hadvance : it.advance task m = .ok task.stage m := by
    rw [advance, hdone]
    rfl
  rw [runTask_eq htask hadvance, Machine.enterStage, Machine.updateTask_self htask, hdone]
  rfl

end Interpreter

end Gcode
