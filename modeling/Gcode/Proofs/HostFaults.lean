import Gcode.Proofs.Tasks

/-!
Faults of host code. Handlers, methods and listeners may give up at any point of a load. Main
statement: a fault that is not one of loading passes every part of a load. It ends the load in the
foreground, or the task, on the very machine that host code left; no fault is announced and no
callback is called (`hostFault_passes`). It leaves as it is, the end of an iteration apart. Faults
of loading are told apart by their kind alone, so that one raised by host code is taken for a
failure of the source (`hostFault_intercepted`).
-/

namespace Gcode

open Act

namespace Interpreter

/-! ### Where host code fails -/

/-- In the course of an action host code is called and ends with a fault, which leaves a machine.
The action may be the call itself; or the call is made in the first of two actions, or in the second
after the first has returned. -/
inductive Raises (it : Interpreter) (e : Fault) (left : Machine) :
    {α : Type} → Act α → Machine → Prop
  | handler {id : String} {args : Args} {m : Machine} :
      it.host.handler id args m = .error e left → Raises it e left (it.host.handler id args) m
  | method {mt : Method} {args : Args} {m : Machine} :
      it.host.method mt args m = .error e left → Raises it e left (it.host.method mt args) m
  | listener {id : String} {payload : List Payload} {m : Machine} :
      it.host.listener id payload m = .error e left →
        Raises it e left (it.host.listener id payload) m
  | first {α β : Type} {a : Act α} {f : α → Act β} {m : Machine} :
      Raises it e left a m → Raises it e left (a >>= f) m
  | second {α β : Type} {a : Act α} {f : α → Act β} {m m₁ : Machine} {x : α} :
      a m = .ok x m₁ → Raises it e left (f x) m₁ → Raises it e left (a >>= f) m

/-- Host code fails in a turn of a load, or when the end of the load is announced after it. -/
inductive Breaks (it : Interpreter) (e : Fault) (left : Machine) (turn : Act Turn) (m : Machine) :
    Prop
  | inTurn : it.Raises e left turn m → Breaks it e left turn m
  | atEnd {ls : List Line} {m₁ : Machine} : turn m = .ok (.finished ls) m₁ →
      it.Raises e left (it.succeeded ls) m₁ → Breaks it e left turn m

variable {it : Interpreter} {e : Fault} {m left : Machine}

/-- A fault of host code ends the action in whose course it is raised. -/
theorem Raises.eq_error {α : Type} {a : Act α} (h : it.Raises e left a m) : a m = .error e left := by
  induction h with
  | handler h => exact h
  | method h => exact h
  | listener h => exact h
  | first _ ih => exact bind_error ih _
  | second ha _ ih => rw [bind_ok ha, ih]

/-- A fault that is not one of loading ends a turn as it is. -/
theorem Breaks.announced_eq {turn : Act Turn} (h : it.Breaks e left turn m) (he : e.isLoad = false) :
    it.announced turn m = .error e left := by
  cases h with
  | inTurn h =>
    rw [announced_error h.eq_error, failed]
    simp only [he, Bool.false_eq_true, if_false]
    rfl
  | atEnd hturn h =>
    rw [announced_finished hturn]
    exact bind_error h.eq_error _

/-! ### Loads in the foreground -/

/-- How a load in the foreground comes to a later turn. Between two of its turns the waiting tasks
have theirs. -/
inductive ComesTo (it : Interpreter) (start : Act Turn) (m₀ : Machine) :
    Nat → Act Turn → Machine → Prop
  | start : ComesTo it start m₀ 0 start m₀
  | next {n : Nat} {turn : Act Turn} {m m₁ m₂ : Machine} {load : Load} :
      ComesTo it start m₀ n turn m → turn m = .ok (.waiting load) m₁ → it.round m₁ = .ok () m₂ →
      ComesTo it start m₀ (n + 1) (it.resume load) m₂

/-- What comes of a load from its first turn on is what comes of it from a later turn on. -/
theorem ComesTo.playOn_eq {start turn : Act Turn} {m₀ : Machine} {n : Nat}
    (h : it.ComesTo start m₀ n turn m) (fuel : Nat) :
    it.playOn (fuel + n) start m₀ = it.playOn fuel turn m := by
  induction h generalizing fuel with
  | start => rfl
  | @next n turn m m₁ m₂ load _ hturn hround ih =>
    rw [Nat.add_comm n 1, ← Nat.add_assoc, ih, playOn, bind_ok (announced_waiting hturn), follow,
      bind_ok hround]
    rfl

/-- A fault that is not one of loading ends the load in whichever of its turns host code fails. -/
theorem ComesTo.readStream_passing {h : Handle} {total : Literal} {turn : Act Turn} {m₀ : Machine}
    {n fuel : Nat} (hcomes : it.ComesTo (it.begin h total) m₀ n turn m)
    (hbreaks : it.Breaks e left turn m) (he : e.isLoad = false) (hfuel : n ≤ fuel) :
    it.readStream fuel h total m₀ = .error e.leaving left := by
  obtain ⟨rest, rfl⟩ := Nat.exists_eq_add_of_le' hfuel
  have hplay : it.playOn (rest + n) (it.begin h total) m₀ = .error e left := by
    rw [hcomes.playOn_eq rest, playOn]
    exact bind_error (hbreaks.announced_eq he) _
  exact leaving_error hplay

end Interpreter

/-- A fault of host code that is not one of loading passes. In the foreground it ends the load, in
whichever of its turns it is raised; in the background it ends the task. The machine is the one that
host code left, apart from the stage of the task and the source that it closes: nothing announces
the fault, and the callback is not called. Nor is it called in the turns before, after which the
task waits, or in those that an ended task is given. What the load or the task ends with is the very
fault, unless it says that an iteration is at its end: then it is a fault of the run. -/
theorem hostFault_passes (it : Interpreter) (e : Fault) (he : e.isLoad = false) (left : Machine) :
    (∀ (h : Handle) (total : Literal) (m₀ m : Machine) (n : Nat) (turn : Act Turn),
      it.ComesTo (it.begin h total) m₀ n turn m → it.Breaks e left turn m →
      ∀ fuel, n ≤ fuel → it.readStream fuel h total m₀ = .error e.leaving left) ∧
    (∀ (m m₁ : Machine) (i : Nat) (task : Task) (h : Handle) (turn : Act Turn),
      m.tasks[i]? = some task → it.Due m task h turn m₁ →
      (it.Breaks e left turn m₁ → it.runTask i m =
        .ok () ((Interpreter.released task h left).enterStage i (.done (.error e.leaving)))) ∧
      (∀ load m', turn m₁ = .ok (.waiting load) m' →
        it.runTask i m = .ok () (m'.enterStage i (.reading load)))) ∧
    (∀ (m : Machine) (i : Nat) (task : Task) (r : Except Fault (Option (List Line))),
      m.tasks[i]? = some task → task.stage = .done r → it.runTask i m = .ok () m) ∧
    (e.leaving = e ∨ ∃ message, e = .exhausted message ∧
      e.leaving = .raised .runtime "coroutine raised StopIteration" none) := by
  refine ⟨?_, ?_, ?_, e.leaving_cases⟩
  · exact fun h total m₀ m n turn hcomes hbreaks fuel => hcomes.readStream_passing hbreaks he
  · intro m m₁ i task h turn htask hdue
    exact ⟨fun hbreaks => hdue.runTask_passing htask (hbreaks.announced_eq he) he,
      fun load m' hturn => hdue.runTask_waiting htask hturn⟩
  · intro m i task r htask hdone
    exact Interpreter.runTask_done htask hdone

/-! ### A handler that fails -/

/-- Handlers give up with a given fault. -/
def touchy (e : Fault) : Interpreter where
  host := { Host.silent with handler := fun _ _ => throw e }

/-- A reader of two lines. -/
def touchyReader : Stream where
  supply := .chunks [.data (.text "G0\nG1 X1\n")] none
  typeName := "Reader"

/-- The handler for the second line fails. -/
def touchyStart : Machine where
  handlers := ⟨[("G1", .callable "boom")]⟩
  registry := { failed := [⟨0, "error", false⟩] }
  streams := [touchyReader]
  tasks := [{ origin := .stream (.stream 0), callback := some "done" }]

/-- The load of the two lines after its read. -/
def touchyLoad : Load where
  source := 0
  reader := { strict := false }
  decoder := { encoding := .utf8 }
  wait := .taken (.text "G0\nG1 X1\n")

/-- The machine after the read, with some tasks and some of them waiting. -/
def touchyRead (tasks : List Task) (queue : List Nat) : Machine :=
  { touchyStart with
    sources := [{ stream := 0, name := .text "Reader" }]
    streams := [{ touchyReader with supply := .chunks [] none, reads := 1 }]
    tasks
    queue
    log := [⟨.debug, .loading, "Loading G-code from Reader"⟩] }

/-- The machine that the handler leaves. -/
def touchyLeft (tasks : List Task) (queue : List Nat) : Machine :=
  { touchyRead tasks queue with
    modal := "G1"
    sources := [{ stream := 0, name := .text "Reader", consumed := 9 }]
    journal := [.handler "boom" ⟨[("X", .int 1)]⟩]
    log :=
      [⟨.debug, .loading, "Loading G-code from Reader"⟩,
       ⟨.trace, .modal, "modal_change from=- to=G0"⟩,
       ⟨.trace, .dispatch, "dispatch_unhandled code=G0"⟩,
       ⟨.trace, .modal, "modal_change from=G0 to=G1"⟩,
       ⟨.trace, .dispatch, "dispatch_handler code=G1"⟩] }

/-- The lines that the reader gives. -/
def touchyLines : List Line :=
  [⟨"G0", [⟨"G", .int 0⟩], none, none, some 1, none⟩,
   ⟨"G1 X1", [⟨"G", .int 1⟩, ⟨"X", .int 1⟩], none, none, some 2, none⟩]

theorem begin_touchy (e : Fault) :
    (touchy e).begin (.stream 0) .null touchyStart =
      .ok (.waiting touchyLoad) (touchyRead touchyStart.tasks []) := by
  have he : encodingNamed (touchy e).encoding = .ok .utf8 := encodingNamed_standard
  unfold Interpreter.begin Interpreter.proceed
  rw [he]
  rfl

theorem raises_touchy (e : Fault) (tasks : List Task) (queue : List Nat) :
    (touchy e).Raises e (touchyLeft tasks queue) ((touchy e).resume touchyLoad)
      (touchyRead tasks queue) := by
  have hlines : (LineReader.feed { strict := false } "G0\nG1 X1\n".toList).1 =
      ⟨.ok touchyLines, 2, []⟩ := rfl
  -- the second line: its notice, its group resolved, its handler called
  have hdeliver : (touchy e).Raises e (touchyLeft tasks queue) ((touchy e).deliver touchyLines)
      { touchyRead tasks queue with
        sources := [{ stream := 0, name := .text "Reader", consumed := 9 }] } := by
    refine .second rfl (.first (.second rfl (.second rfl (.first (.second rfl (.second rfl
      (.first (.first ?_))))))))
    exact .second rfl (.second rfl (.second rfl (.first (.handler rfl))))
  refine .first (.second rfl (.first (.second ?_ (.first hdeliver))))
  show Interpreter.linesOf (LineReader.feed { strict := false } "G0\nG1 X1\n".toList).1 _ = _
  rw [hlines]
  rfl

/-- The task after its first turn. -/
def touchyTasks : List Task :=
  [{ origin := .stream (.stream 0), callback := some "done", stage := .reading touchyLoad }]

theorem due_touchy (e : Fault) :
    (touchy e).Due (touchyRead touchyTasks [0]) touchyTasks[0] (.source 0)
      ((touchy e).resume touchyLoad) (touchyRead touchyTasks [0]) := by
  show (touchy e).Due _ _ (.source touchyLoad.source) _ _
  exact .later rfl rfl

theorem comesTo_touchy (e : Fault) :
    (touchy e).ComesTo ((touchy e).begin (.stream 0) .null) touchyStart 1
      ((touchy e).resume touchyLoad) (touchyRead touchyStart.tasks []) :=
  .next .start (begin_touchy e) rfl

theorem hostFault_passes_touchy :
    let e : Fault := .raised .zeroDivision "handler" none
    e.isLoad = false ∧
    (∀ fuel, 1 ≤ fuel → (touchy e).readStream fuel (.stream 0) .null touchyStart =
      .error e (touchyLeft touchyStart.tasks [])) ∧
    (touchy e).runTask 0 touchyStart = .ok () (touchyRead touchyTasks [0]) ∧
    (touchy e).runTask 0 (touchyRead touchyTasks [0]) =
      .ok () ((touchyLeft touchyTasks [0]).enterStage 0 (.done (.error e))) ∧
    (touchy e).runTask 0 ((touchyLeft touchyTasks [0]).enterStage 0 (.done (.error e))) =
      .ok () ((touchyLeft touchyTasks [0]).enterStage 0 (.done (.error e))) := by
  intro e
  obtain ⟨hforeground, -, -⟩ :=
    hostFault_passes (touchy e) e rfl (touchyLeft touchyStart.tasks [])
  obtain ⟨-, hbackground, hended, -⟩ :=
    hostFault_passes (touchy e) e rfl (touchyLeft touchyTasks [0])
  refine ⟨rfl, ?_, ?_, ?_, ?_⟩
  · exact hforeground _ _ _ _ _ _ (comesTo_touchy e) (.inTurn (raises_touchy e _ _))
  · exact (hbackground _ _ 0 _ _ _ rfl (.first rfl rfl rfl)).2 _ _ (begin_touchy e)
  · exact (hbackground _ _ 0 _ _ _ rfl (due_touchy e)).1 (.inTurn (raises_touchy e _ _))
  · exact hended _ 0 _ (.error e) rfl rfl

/-- A fault of loading does not pass if host code raises it: it is announced, and in the background
the callback is told, and the task ends as if its source had failed. The end of an iteration passes,
but neither the load nor the task ends with it. -/
theorem hostFault_intercepted :
    (let e : Fault := .raised .load "boom" none
    (touchy e).Raises e (touchyLeft touchyTasks [0]) ((touchy e).resume touchyLoad)
      (touchyRead touchyTasks [0]) ∧
    (touchy e).Due (touchyRead touchyTasks [0]) touchyTasks[0] (.source 0)
      ((touchy e).resume touchyLoad) (touchyRead touchyTasks [0]) ∧
    (∃ m, (touchy e).runTask 0 (touchyRead touchyTasks [0]) = .ok () m ∧
      m.tasks[0]?.map (·.stage.isDone) = some true ∧
      m.journal = (touchyLeft touchyTasks [0]).journal ++
        [.listener "error" [.fault e], .callback "done" (.error e)]) ∧
    (∀ fuel, 1 ≤ fuel → ∃ m, (touchy e).readStream fuel (.stream 0) .null touchyStart =
      .error e m ∧
      m.journal = [.handler "boom" ⟨[("X", .int 1)]⟩, .listener "error" [.fault e]])) ∧
    (let e : Fault := .exhausted ""
    let e' : Fault := .raised .runtime "coroutine raised StopIteration" none
    (touchy e).Raises e (touchyLeft touchyTasks [0]) ((touchy e).resume touchyLoad)
      (touchyRead touchyTasks [0]) ∧
    (touchy e).runTask 0 (touchyRead touchyTasks [0]) =
      .ok () ((touchyLeft touchyTasks [0]).enterStage 0 (.done (.error e'))) ∧
    (∀ fuel, 1 ≤ fuel → (touchy e).readStream fuel (.stream 0) .null touchyStart =
      .error e' (touchyLeft touchyStart.tasks [])) ∧ e ≠ e') := by
  constructor
  · intro e
    have hannounce : ∀ tasks queue, ∃ m,
        (touchy e).announceFault e (touchyLeft tasks queue) = .ok () m ∧ m.tasks = tasks ∧
        m.journal = [.handler "boom" ⟨[("X", .int 1)]⟩, .listener "error" [.fault e]] :=
      fun _ _ => ⟨_, rfl, rfl, rfl⟩
    have hann : ∀ tasks queue, (touchy e).announced ((touchy e).resume touchyLoad)
        (touchyRead tasks queue) = (touchy e).failed e (touchyLeft tasks queue) :=
      fun tasks queue => Interpreter.announced_error (raises_touchy e tasks queue).eq_error
    refine ⟨raises_touchy e _ _, due_touchy e, ?_, ?_⟩
    · obtain ⟨m, hm, htasks, hjournal⟩ := hannounce touchyTasks [0]
      have hfailed := (hann _ _).trans (Interpreter.failed_eq hm)
      have hrun := (due_touchy e).runTask_failing (i := 0) rfl hfailed rfl rfl
      refine ⟨_, hrun, ?_, ?_⟩
      · show (m.tasks.modify 0 _)[0]?.map _ = _
        rw [htasks]
        rfl
      · show m.journal ++ [.callback "done" (.error e)] = _
        rw [hjournal]
        rfl
    · intro fuel hfuel
      obtain ⟨rest, rfl⟩ := Nat.exists_eq_add_of_le' hfuel
      obtain ⟨m, hm, -, hjournal⟩ := hannounce touchyStart.tasks []
      have hplay : (touchy e).playOn (rest + 1) ((touchy e).begin (.stream 0) .null) touchyStart =
          .error e m := by
        rw [(comesTo_touchy e).playOn_eq rest,
          Interpreter.playOn_error rest (raises_touchy e _ _).eq_error]
        exact Interpreter.failed_eq hm
      exact ⟨m, leaving_error hplay, hjournal⟩
  · intro e e'
    have hbreaks : ∀ tasks queue, (touchy e).Breaks e (touchyLeft tasks queue)
        ((touchy e).resume touchyLoad) (touchyRead tasks queue) :=
      fun tasks queue => .inTurn (raises_touchy e tasks queue)
    refine ⟨raises_touchy e _ _, ?_, ?_, by decide⟩
    · exact (due_touchy e).runTask_passing rfl ((hbreaks _ _).announced_eq rfl) rfl
    · exact fun fuel => (comesTo_touchy e).readStream_passing (hbreaks _ _) rfl

end Gcode
