import Gcode.Proofs.Moments
import Gcode.Session

/-!
What an interpreter tells of its loads while they overlap. It knows one task as its own, the one
that was started last, and looks at no other. So its status says whether that one is still running,
and so does the warning with which another load is started; loads that were started before do not
matter. Main statement: this is so at every moment, also while host code runs, and it comes to the
same as whether any load is running as long as loads end in the order in which they were started
(`status_tells_newest`).
-/

namespace Gcode

open Act

namespace Machine

/-- The task that the interpreter knows as its own is the last of all tasks. -/
def Tracks (m : Machine) : Prop := ∀ i, m.current = some i ↔ i + 1 = m.tasks.length

/-- Is the load running that was started last? -/
def newestRuns (m : Machine) : Bool := m.tasks.getLast?.any (!·.stage.isDone)

/-- Is any load running? -/
def someRuns (m : Machine) : Bool := m.tasks.any (!·.stage.isDone)

/-- No load has ended before one that was started earlier. -/
def FinishesInOrder (m : Machine) : Prop :=
  m.tasks.Pairwise fun earlier later => later.stage.isDone → earlier.stage.isDone

/-- The tasks that were there are the same, except that they may have been cancelled; and if tasks
have been added, the interpreter knows the last one as its own. -/
structure Enlists (m m' : Machine) : Prop where
  keeps : m.KeepsTasks m'
  current : m'.current =
    if m'.tasks.length = m.tasks.length then m.current else some (m'.tasks.length - 1)

variable {m m' m'' : Machine}

/-! ### Tasks that are added -/

theorem KeepsTasks.length_le (h : m.KeepsTasks m') : m.tasks.length ≤ m'.tasks.length := by
  refine Nat.le_of_not_lt fun hlt => ?_
  obtain ⟨_, hthere⟩ := h m'.tasks.length _ (List.getElem?_eq_getElem hlt)
  exact Nat.lt_irrefl _ (List.getElem?_eq_some_iff.1 hthere).1

theorem enlists_of_eq (htasks : m'.tasks = m.tasks) (hcurrent : m'.current = m.current) :
    m.Enlists m' where
  keeps := keepsTasks_of_eq htasks
  current := by rw [htasks, if_pos rfl, hcurrent]

theorem Enlists.trans (h : m.Enlists m') (h' : m'.Enlists m'') : m.Enlists m'' where
  keeps := steady_keepsTasks.trans h.keeps h'.keeps
  current := by
    have hle := h.keeps.length_le
    have hle' := h'.keeps.length_le
    rw [h'.current, h.current]
    by_cases hfirst : m'.tasks.length = m.tasks.length
    · rw [hfirst, if_pos rfl]
    · rw [if_neg hfirst, if_neg (show m''.tasks.length ≠ m.tasks.length by omega)]
      split
      · rename_i hsecond
        rw [hsecond]
      · rfl

theorem steady_enlists : Steady Enlists := ⟨fun _ => enlists_of_eq rfl rfl, Enlists.trans⟩

theorem addTask_enlists (m : Machine) (task : Task) : m.Enlists (m.addTask task) where
  keeps i task' htask := ⟨task'.cancelled, (List.getElem?_append_left
    (List.getElem?_eq_some_iff.1 htask).1).trans htask⟩
  current := by simp [addTask]

theorem Enlists.tracks (h : m.Enlists m') (hm : m.Tracks) : m'.Tracks := by
  intro i
  rw [h.current]
  have hle := h.keeps.length_le
  split
  · rename_i hlength
    rw [hlength]
    exact hm i
  · rw [Option.some.injEq]
    omega

theorem enterStage_tracks (m : Machine) (i : Nat) (stage : Stage) (hm : m.Tracks) :
    (m.enterStage i stage).Tracks := by
  obtain ⟨queue, heq⟩ := m.enterStage_eq i stage
  rw [heq, Tracks, show (m.updateTask i _).tasks.length = m.tasks.length from List.length_modify ..]
  exact hm

/-! ### The load started last -/

/-- What the interpreter looks at is the load that was started last. -/
theorem Tracks.loading_eq (hm : m.Tracks) : m.loading = m.newestRuns := by
  have hlast : m.currentTask? = m.tasks.getLast? := by
    rw [currentTask?, List.getLast?_eq_getElem?]
    cases hcurrent : m.current with
    | none =>
      have hempty : m.tasks.length = 0 := by
        refine Nat.eq_zero_of_not_pos fun hpos => ?_
        have hlast := (hm (m.tasks.length - 1)).2 (by omega)
        rw [hcurrent] at hlast
        cases hlast
      rw [Option.bind_none, List.getElem?_eq_none (by omega)]
    | some i =>
      have hi := (hm i).1 hcurrent
      rw [Option.bind_some, ← hi, Nat.add_sub_cancel]
  rw [loading, hlast, newestRuns]

theorem someRuns_of_newestRuns (h : m.newestRuns = true) : m.someRuns = true := by
  obtain ⟨task, hlast, hruns⟩ := (Option.any_eq_true _ _).1 h
  exact List.any_eq_true.2 ⟨task, List.mem_of_getLast? hlast, hruns⟩

/-- If loads end in the order in which they were started, the last one is running as long as any
is. -/
theorem FinishesInOrder.newestRuns_eq (h : m.FinishesInOrder) : m.newestRuns = m.someRuns := by
  refine Bool.eq_iff_iff.2 ⟨someRuns_of_newestRuns, fun hsome => ?_⟩
  obtain ⟨task, htask, hruns⟩ := List.any_eq_true.1 hsome
  obtain hnil | ⟨earlier, last, htasks⟩ := List.eq_nil_or_concat m.tasks
  · rw [hnil] at htask
    cases htask
  · rw [List.concat_eq_append] at htasks
    rw [FinishesInOrder, htasks, List.pairwise_append] at h
    rw [htasks, List.mem_append, List.mem_singleton] at htask
    rw [newestRuns, htasks, List.getLast?_concat, Option.any_some]
    obtain hearlier | rfl := htask
    · have horder := h.2.2 task hearlier last (List.mem_singleton.2 rfl)
      cases hdone : last.stage.isDone with
      | false => rfl
      | true =>
        rw [horder hdone] at hruns
        cases hruns
    · exact hruns

end Machine

/-! ### What is told -/

/-- What an interpreter tells of its loads is about the one that was started last: its status says
whether that one is running, and if so another load is started with a warning. -/
structure Interpreter.TellsNewest (it : Interpreter) (m : Machine) : Prop where
  status : ∀ script awaited, Session.perform script it awaited .status m =
    .ok (.status ⟨m.modal, m.handlers.sortedNames, it.dialect.table.sortedNames, m.newestRuns⟩) m
  start : ∀ origin callback, it.schedule origin callback m = .ok ()
    ({ m with log := m.log ++ if m.newestRuns then [Log.overlap] else [] }.addTask
      { origin, callback })

/-- An interpreter does so now, and also after part of what is done next. -/
def Interpreter.KeepsTelling (it : Interpreter) (m : Machine) : Prop :=
  ∀ m' : Machine, m.Enlists m' → it.TellsNewest m'

namespace Interpreter

variable {it : Interpreter} {m : Machine}

theorem status_eq (hintact : it.Intact) (script : Script) (awaited : Nat) (m : Machine) :
    Session.perform script it awaited .status m =
      .ok (.status ⟨m.modal, m.handlers.sortedNames, it.dialect.table.sortedNames, m.loading⟩)
        m := by
  have hcodes : it.commandCodes = .ok it.dialect.table.sortedNames := by
    rw [commandCodes, hintact]
  rw [Session.perform, hintact.call_eq, hcodes]
  rfl

theorem tellsNewest_of_tracks (hintact : it.Intact) (hloop : it.hasLoop = true) (hm : m.Tracks) :
    it.TellsNewest m where
  status script awaited := by rw [status_eq hintact, hm.loading_eq]
  start origin callback := by rw [schedule_eq hintact hloop, hm.loading_eq]

theorem Respects.enlists (hit : it.Respects Machine.Enlists) : it.Habits Machine.Enlists :=
  hit.habits Machine.steady_enlists fun _ _ => Machine.enlists_of_eq

/-- To start a load is such a move. -/
theorem schedule_enlists (hit : it.Respects Machine.Enlists) (origin : Origin)
    (callback : Option String) : (it.schedule origin callback).Moves Machine.Enlists :=
  hit.enlists.toLogging.moves_schedule (fun m => m.addTask_enlists _) fun _ =>
    hit.enlists.moves_complete callback _

theorem cancel_enlists : cancel.Moves Machine.Enlists :=
  Machine.steady_enlists.moves_cancel fun m i =>
    { keeps := fun j task htask => by
        by_cases hij : i = j
        · exact ⟨true, by simp [Machine.updateTask, hij, htask]⟩
        · exact ⟨task.cancelled, by simp [Machine.updateTask, hij, htask]⟩
      current := by rw [Machine.updateTask, List.length_modify, if_pos rfl] }

theorem Respects.tracks (hit : it.Respects Machine.Enlists) :
    it.Habits (Machine.Keeping Machine.Tracks) :=
  (hit.mono fun _ _ h => h.tracks).habits (Machine.steady_keeping _)
    fun _ _ htasks hcurrent => (Machine.enlists_of_eq htasks hcurrent).tracks

end Interpreter

/-- Loads are started on one interpreter on a running event loop, and their turns come in any order,
mixed with whatever else is done. Host code and whatever else is done may start loads and cancel
them, but leave the record of them alone. Then at every moment the status tells whether the load is
running that was started last, and so does the warning with which another one is started; and host
code is called at no other moments, since host code that does the same at such moments leads to the
same. The load started last runs only if some load runs, and if loads end in the order in which they
were started, it runs as long as any of them does. -/
theorem status_tells_newest (it : Interpreter) (hit : it.Respects Machine.Enlists)
    (hintact : it.Intact) (hloop : it.hasLoop = true) (m : Machine) (hm : m.Tracks)
    (schedule : Nat → Move) (hschedule : ∀ n, (schedule n).Gentle Machine.Enlists) :
    (∀ n, it.KeepsTelling (it.runs schedule m n)) ∧
    (∀ host, Host.Alike it.KeepsTelling it.host host → ∀ n,
      (it.withHost host).runs schedule m n = it.runs schedule m n) ∧
    ∀ m' : Machine, (m'.newestRuns = true → m'.someRuns = true) ∧
      (m'.FinishesInOrder → m'.newestRuns = m'.someRuns) := by
  have htells : ∀ m : Machine, m.Tracks → it.KeepsTelling m := by
    intro m hm m' henlists
    exact Interpreter.tellsNewest_of_tracks hintact hloop (henlists.tracks hm)
  have hgentle : ∀ n, (schedule n).Gentle (Machine.Keeping Machine.Tracks) :=
    fun n => (hschedule n).mono fun _ _ h => h.tracks
  refine ⟨fun n => htells _ ?_, fun host halike n => ?_,
    fun m' => ⟨Machine.someRuns_of_newestRuns, Machine.FinishesInOrder.newestRuns_eq⟩⟩
  · exact hit.tracks.runs_respects Machine.enterStage_tracks hgentle m n hm
  · exact Interpreter.runs_withHost { halike.mono htells with keeps := hit.tracks }
      Machine.enterStage_tracks hgentle hm n

/-! ### A load that outlives another one -/

/-- Handlers start another load, and callbacks cancel the one that was started last. -/
def eager : Interpreter where
  host := { Host.silent with
    handler := fun _ args => do
      ({} : Interpreter).schedule (.text .null) none
      pure args
    callback := fun _ _ => do
      let _ ← Interpreter.cancel }

/-- Turns of the first two loads, and then another load is started. -/
def crowded (n : Nat) : Move :=
  if n % 3 = 2 then .aside (eager.schedule (.text (.text "G1")) (some "done")) else .turn (n % 3)

theorem respects_silent {R : Machine → Machine → Prop} (h : Steady R) :
    ({} : Interpreter).Respects R where
  handler _ args := h.nothing args
  method _ args := h.nothing args
  listener _ _ := h.nothing ()
  callback _ _ := h.nothing ()
  answer _ _ _ hop := by cases hop

theorem respects_eager : eager.Respects Machine.Enlists where
  handler _ args := Machine.steady_enlists.follows
    (Interpreter.schedule_enlists (respects_silent Machine.steady_enlists) _ _)
    fun _ => Machine.steady_enlists.nothing args
  method _ args := Machine.steady_enlists.nothing args
  listener _ _ := Machine.steady_enlists.nothing ()
  callback _ _ := Machine.steady_enlists.follows Interpreter.cancel_enlists fun _ =>
    Machine.steady_enlists.nothing ()
  answer _ _ _ hop := by cases hop

theorem status_tells_newest_eager :
    let m : Machine := { handlers := Table.ofList [("G1", .callable "again")] }
    (∀ n, eager.KeepsTelling (eager.runs crowded m n)) ∧
    (∀ host, Host.Alike eager.KeepsTelling eager.host host → ∀ n,
      (eager.withHost host).runs crowded m n = eager.runs crowded m n) := by
  intro m
  have hintact : eager.Intact := by
    intro op
    cases op <;> rfl
  have hfresh : m.Tracks := by
    intro i
    simp [m]
  have hgentle : ∀ n, (crowded n).Gentle Machine.Enlists := by
    intro n
    rw [crowded]
    split
    · exact Interpreter.schedule_enlists respects_eager _ _
    · trivial
  obtain ⟨htells, hhost, -⟩ :=
    status_tells_newest eager respects_eager hintact rfl m hfresh crowded hgentle
  exact ⟨htells, hhost⟩

/-- Two loads of texts, of which the second is the shorter one, after two turns of each. -/
def outrun : Machine :=
  let it : Interpreter := {}
  let start (text : String) := it.schedule (.text (.text text)) none
  it.runs (fun n => .turn (n % 2)) ((start "G0" >>= fun _ => start "").after {}) 4

/-- A load that is still running is not told of once one has ended that was started later. -/
theorem outrun_untold :
    let it : Interpreter := {}
    outrun.someRuns = true ∧
    (∀ script awaited, ∃ s,
      Session.perform script it awaited .status outrun = .ok (.status s) outrun ∧
        s.loading = false) ∧
    ∃ m, it.schedule (.text (.text "")) none outrun = .ok () m ∧ m.log = outrun.log := by
  intro it
  have he : encodingNamed it.encoding = .ok .utf8 := encodingNamed_standard
  have hends : outrun.someRuns = true ∧ outrun.loading = false := by
    simp only [outrun, Interpreter.runs, Move.act]
    unfold Interpreter.runTask Interpreter.advance Interpreter.startTask Interpreter.begin
    rw [he]
    decide +kernel
  have hintact : it.Intact := by
    intro op
    cases op <;> rfl
  refine ⟨hends.1, fun script awaited => ⟨_, it.status_eq hintact script awaited outrun, hends.2⟩,
    _, it.schedule_eq hintact rfl _ _ outrun, ?_⟩
  rw [hends.2]
  exact List.append_nil _

end Gcode
