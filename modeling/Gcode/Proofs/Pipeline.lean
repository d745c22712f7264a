import Gcode.Proofs.History
import Gcode.Session

/-!
From texts to calls. Whatever a client loads, its lines are well-formed, and so is all that follows
from them, in the turns of tasks as well as at once (`Modest.moves_runTask`,
`Modest.loadText_yields`). Main statement: in a session of loads and resets the modal command is a
well-formed code or empty, and becomes empty only when the interpreter is reset; host code is handed
well-formed data; and every command is dispatched by the modal command (`session_wellFormed`).
-/

namespace Gcode

open Act

/-- The lines of a load so far are well-formed. -/
def Load.WellFormed (load : Load) : Prop := ∀ l ∈ load.lines, l.WellFormed

/-- What the data of a read leads to: a load that goes on, or all of its lines. -/
def Load.WellReceived : Load ⊕ List Line → Prop
  | .inl load => load.WellFormed
  | .inr ls => ∀ l ∈ ls, l.WellFormed

/-- A turn comes to a well-formed load or to well-formed lines. -/
def Turn.WellFormed : Turn → Prop
  | .waiting load => load.WellFormed
  | .finished ls => ∀ l ∈ ls, l.WellFormed

/-- A task ends with well-formed lines if it is told of such lines. -/
theorem Stage.wellFormed_after {result : Option (List Line)} (told : Except Fault Unit)
    (h : ∀ ls, result = some ls → ∀ l ∈ ls, l.WellFormed) :
    (Interpreter.stageAfter result told).WellFormed := by
  cases told with
  | error f => exact nofun
  | ok _ =>
    rintro ls ⟨⟩
    exact h ls rfl

/-- The lines of the loads stay well-formed when a task is changed. -/
theorem Machine.Sound.updateTask {m : Machine} (hm : m.Sound) (i : Nat) {f : Task → Task}
    (hf : ∀ t : Task, t.stage.WellFormed → (f t).stage.WellFormed) :
    ∀ task ∈ (m.updateTask i f).tasks, task.stage.WellFormed := by
  intro task htask
  obtain ⟨j, hj⟩ := List.mem_iff_getElem?.1 htask
  rw [Machine.updateTask, List.getElem?_modify] at hj
  obtain ⟨t, ht, rfl⟩ := Option.map_eq_some_iff.1 hj
  have hstage := hm.tasks t (List.mem_of_getElem? ht)
  split
  · exact hf t hstage
  · exact hstage

namespace Interpreter

variable {it : Interpreter} {m : Machine} {load : Load}

/-- The lines of a reading are well-formed. -/
theorem linesOf_yields (strict : Bool) (count : Nat) (parts : List (List Char)) :
    (linesOf (Reading.ofLines strict count parts)).Yields it.History
      fun ls => ∀ l ∈ ls, l.WellFormed := by
  refine ⟨upkeep_history.moves_linesOf _, fun m ls m' h => ?_⟩
  obtain ⟨_, _, -, h⟩ := bind_eq_ok h
  cases hread : (Reading.ofLines strict count parts).lines with
  | error f =>
    rw [hread] at h
    cases h
  | ok ls' =>
    rw [hread] at h
    cases h
    exact Reading.lines_wellFormed hread

theorem moves_logLoaded (it : Interpreter) (count : Nat) : (logLoaded count).Moves it.History :=
  looks fun _ => upkeep_history.writes _ _ (by rfl)

namespace Modest

/-! ### Turns -/

theorem ingest_yields (hit : it.Modest) (hload : load.WellFormed) (p : Piece) :
    (it.ingest load p).Yields it.History Load.WellFormed := by
  have h : Steady it.History := steady_history
  rw [ingest_eq]
  refine h.leads (linesOf_yields _ _ _) fun ls hls => ?_
  have hprogress : (it.announceProgress load.source).Moves it.History :=
    h.follows (upkeep_history.moves_sourceAt _) fun src =>
      h.follows ((hit.hearing (by simp [Payload.WellFormed])).moves_emit _) fun _ => h.nothing ()
  refine h.leads (hit.moves_deliver ls hls).yields fun _ _ =>
    h.leads hprogress.yields fun _ _ => h.gives_back ?_
  exact List.forall_mem_append.2 ⟨hload, hls⟩

theorem finish_yields (hit : it.Modest) (hload : load.WellFormed) :
    (it.finish load).Yields it.History fun ls => ∀ l ∈ ls, l.WellFormed := by
  have h : Steady it.History := steady_history
  rw [finish_eq]
  refine h.leads (linesOf_yields _ _ _) fun completed hcompleted =>
    h.leads (hit.moves_deliver _ hcompleted).yields fun _ _ =>
      h.leads (linesOf_yields _ _ _) fun last hlast =>
        h.leads (hit.moves_deliver _ hlast).yields fun _ _ => h.gives_back ?_
  exact List.forall_mem_append.2 ⟨List.forall_mem_append.2 ⟨hload, hcompleted⟩, hlast⟩

theorem receive_yields (hit : it.Modest) (hload : load.WellFormed) (data : Literal) :
    (it.receive load data).Yields it.History Load.WellReceived := by
  have h : Steady it.History := steady_history
  refine h.leads (upkeep_history.moves_accept _ _).yields fun p _ => ?_
  split
  · exact h.leads (hit.finish_yields hload) fun _ hls => h.gives_back hls
  · exact h.leads (hit.ingest_yields hload p) fun _ hload => h.gives_back hload

theorem proceed_yields (hit : it.Modest) : ∀ (fuel : Nat) {load : Load}, load.WellFormed →
    (it.proceed fuel load).Yields it.History Turn.WellFormed := by
  have h : Steady it.History := steady_history
  intro fuel
  induction fuel with
  | zero =>
    intro load hload
    rw [proceed.eq_def]
    refine h.leads (upkeep_history.moves_sourceAt _).yields fun src _ =>
      h.leads (upkeep_history.moves_streamAt _).yields fun s _ => ?_
    rcases s.waits with _ | _ | left
    · exact h.leads (upkeep_history.moves_take _ _).yields fun _ _ => h.gives_back hload
    · exact h.gives_back hload
    · exact h.gives_back hload
  | succ fuel ih =>
    intro load hload
    rw [proceed.eq_def]
    refine h.leads (upkeep_history.moves_sourceAt _).yields fun src _ =>
      h.leads (upkeep_history.moves_streamAt _).yields fun s _ => ?_
    rcases s.waits with _ | _ | left
    · exact h.leads (upkeep_history.moves_take _ _).yields fun _ _ => h.gives_back hload
    · refine h.leads (upkeep_history.moves_take _ _).yields fun data _ =>
        h.leads (hit.receive_yields hload data) ?_
      rintro (load' | ls) hnext
      · exact ih hnext
      · exact h.gives_back hnext
    · exact h.gives_back hload

theorem advanceRest_yields (hit : it.Modest) {r : Load ⊕ List Line} (hr : Load.WellReceived r) :
    (it.advanceRest r).Yields it.History Turn.WellFormed := by
  have h : Steady it.History := steady_history
  cases r with
  | inl load =>
    exact h.leads (upkeep_history.moves_readsLeft _).yields fun n _ => hit.proceed_yields n hr
  | inr ls => exact h.gives_back hr

theorem begin_yields (hit : it.Modest) (handle : Handle) (total : Literal) :
    (it.begin handle total).Yields it.History Turn.WellFormed := by
  have h : Steady it.History := steady_history
  have hprepare : (it.prepare handle total).Yields it.History Load.WellFormed := by
    refine h.yields_call it _ <| h.yields_call it _ <|
      h.leads (upkeep_history.moves_sourceOf handle).yields fun source _ =>
        h.leads (upkeep_history.moves_setTotal _ total).yields fun _ _ =>
          h.leads (h.gives _).yields fun _ _ =>
            h.leads (upkeep_history.moves_sourceAt _).yields fun _ _ => ?_
    exact h.leads (upkeep_history.writes _ _ (by rfl)).yields fun _ _ =>
      yields_get fun _ => h.gives_back fun l hl => absurd hl List.not_mem_nil
  rw [begin_eq]
  exact h.leads hprepare fun load hload => hit.advanceRest_yields (r := .inl load) hload

theorem resume_yields (hit : it.Modest) (hload : load.WellFormed) :
    (it.resume load).Yields it.History Turn.WellFormed := by
  have h : Steady it.History := steady_history
  have hwith : ∀ data, (it.advanceWith load data).Yields it.History Turn.WellFormed := by
    intro data
    rw [advanceWith_eq]
    exact h.leads (hit.receive_yields hload data) fun _ => hit.advanceRest_yields
  rw [resume]
  split
  · exact hwith _
  · exact h.leads (upkeep_history.moves_take _ _).yields fun data _ => hwith data
  · exact h.gives_back hload

theorem moves_announceFault (hit : it.Modest) (f : Fault) :
    (it.announceFault f).Moves it.History :=
  (hit.hearing (by simp [Payload.WellFormed])).moves_report _

theorem announced_yields (hit : it.Modest) {turn : Act Turn}
    (hturn : turn.Yields it.History Turn.WellFormed) :
    (it.announced turn).Yields it.History Turn.WellFormed := by
  have h : Steady it.History := steady_history
  refine h.leads hturn.attempts ?_
  rintro (f | load | ls) hr
  · dsimp only
    split
    · exact h.leads (hit.moves_announceFault f).yields fun _ _ => h.fails f
    · exact h.fails f
  · exact h.gives_back (hr _ rfl)
  · have hls : ∀ l ∈ ls, l.WellFormed := hr _ rfl
    have hhearing : it.Hearing [.results ls] it.History :=
      hit.hearing (by simpa [Payload.WellFormed] using hls)
    exact h.leads (moves_logLoaded it ls.length).yields fun _ _ =>
      h.leads (hhearing.moves_emit _).yields fun _ _ => h.gives_back hls

/-! ### Tasks -/

theorem runTurn_yields (hit : it.Modest) (task : Task) (handle : Handle) {turn : Act Turn}
    (hturn : turn.Yields it.History Turn.WellFormed) :
    (it.runTurn task handle turn).Yields it.History Stage.WellFormed := by
  have h : Steady it.History := steady_history
  have hrelease : (release task handle).Moves it.History := upkeep_history.moves_release task handle
  refine h.leads (hit.announced_yields hturn).attempts ?_
  rintro (f | load | ls) hr
  · dsimp only
    split
    · exact h.leads (attempts (hit.moves_complete _ (.error f) nofun)).yields fun told _ =>
        h.leads hrelease.yields fun _ _ => h.gives_back (Stage.wellFormed_after told nofun)
    · exact h.leads hrelease.yields fun _ _ => h.gives_back nofun
  · exact h.gives_back (hr _ rfl)
  · have hls : ∀ ls', some ls = some ls' → ∀ l ∈ ls', l.WellFormed := by
      rintro _ ⟨⟩
      exact hr _ rfl
    have hcomplete := hit.moves_complete task.callback (.ok ls) fun ls' h =>
      hls ls' (by cases h; rfl)
    exact h.leads hrelease.yields fun _ _ => h.leads (attempts hcomplete).yields fun told _ =>
      h.gives_back (Stage.wellFormed_after told hls)

theorem cancelTask_yields (task : Task) :
    (cancelTask task).Yields it.History Stage.WellFormed := by
  have h : Steady it.History := steady_history
  rw [cancelTask]
  split
  · exact h.leads (upkeep_history.moves_release _ _).yields fun _ _ => h.gives_back (by rintro _ ⟨⟩)
  · exact h.gives_back (by rintro _ ⟨⟩)

theorem startTask_yields (hit : it.Modest) (task : Task) :
    (it.startTask task).Yields it.History Stage.WellFormed := by
  have h : Steady it.History := steady_history
  refine h.leads (attempts (upkeep_history.moves_openOrigin it _)).yields ?_
  rintro (f | handle) -
  · dsimp only
    split
    · have hreport := h.follows (hit.moves_announceFault f) fun _ =>
        hit.moves_complete task.callback (.error f) nofun
      exact h.leads (attempts hreport).yields fun told _ =>
        h.gives_back (Stage.wellFormed_after told nofun)
    · exact h.gives_back nofun
  · exact hit.runTurn_yields task handle (hit.begin_yields handle .null)

/-- A task comes from one well-formed stage to the next. -/
theorem advance_yields (hit : it.Modest) {task : Task} (htask : task.stage.WellFormed) :
    (it.advance task).Yields it.History Stage.WellFormed := by
  have h : Steady it.History := steady_history
  rw [advance]
  split
  · rename_i hstage
    rw [hstage] at htask
    exact h.gives_back htask
  · split
    · exact cancelTask_yields task
    · exact hit.startTask_yields task
  · rename_i hstage
    rw [hstage] at htask
    split
    · exact cancelTask_yields task
    · exact hit.runTurn_yields task _ (hit.resume_yields htask)

theorem moves_runTask (hit : it.Modest) (i : Nat) : (it.runTask i).Moves it.History := by
  have h : Steady it.History := steady_history
  intro m hm
  cases htask : m.tasks[i]? with
  | none =>
    rw [after, runTask, get_bind, htask]
    exact .refl
  | some task =>
    have hadvance := hit.advance_yields (hm.tasks task (List.mem_of_getElem? htask))
    rw [after, runTask, get_bind, htask]
    refine h.follows_from (hadvance.moves m) (fun stage m₁ hok => ?_) hm
    have hstage : stage.WellFormed := hadvance.value m stage m₁ hok
    refine h.follows_at (.of_change fun hm₁ => .silent rfl rfl rfl ?_) fun _ => ?_
    · exact hm₁.updateTask i fun _ _ => hstage
    · split
      · exact fun _ => .of_eq rfl rfl rfl rfl
      · exact h.nothing ()

theorem moves_runTasks (hit : it.Modest) : ∀ is : List Nat, (it.runTasks is).Moves it.History
  | [] => steady_history.nothing ()
  | i :: is => steady_history.follows (hit.moves_runTask i) fun _ => moves_runTasks hit is

theorem moves_round (hit : it.Modest) : it.round.Moves it.History :=
  looks fun m => steady_history.follows (fun _ => .of_eq rfl rfl rfl rfl) fun _ =>
    hit.moves_runTasks m.queue

theorem moves_rounds (hit : it.Modest) : ∀ n : Nat, (it.rounds n).Moves it.History
  | 0 => steady_history.nothing ()
  | n + 1 => steady_history.follows hit.moves_round fun _ => moves_rounds hit n

theorem moves_settle (hit : it.Modest) : ∀ fuel : Nat, (it.settle fuel).Moves it.History
  | 0 => steady_history.nothing ()
  | fuel + 1 => by
    refine looks fun m => ?_
    split
    · exact steady_history.nothing ()
    · exact steady_history.follows hit.moves_round fun _ => moves_settle hit fuel

theorem follow_yields (hit : it.Modest) : ∀ (fuel : Nat) {turn : Turn}, turn.WellFormed →
    (it.follow fuel turn).Yields it.History fun ls => ∀ l ∈ ls, l.WellFormed
  | _, .finished ls, hturn => by
    rw [follow.eq_def]
    exact steady_history.gives_back hturn
  | 0, .waiting load, hturn => steady_history.gives_back hturn
  | fuel + 1, .waiting load, hturn =>
    steady_history.leads hit.moves_round.yields fun _ _ =>
      steady_history.leads (hit.announced_yields (hit.resume_yields hturn)) fun _ =>
        follow_yields hit fuel

theorem readStream_yields (hit : it.Modest) (fuel : Nat) (handle : Handle) (total : Literal) :
    (it.readStream fuel handle total).Yields it.History fun ls => ∀ l ∈ ls, l.WellFormed :=
  (steady_history.leads (hit.announced_yields (hit.begin_yields handle total)) fun _ =>
    hit.follow_yields fuel).leaving

/-! ### Loading at once -/

theorem moves_runLines (hit : it.Modest) (callback : Option String) : ∀ (ls : List Line)
    (index : Nat), (∀ l ∈ ls, l.WellFormed) → (it.runLines callback index ls).Moves it.History
  | [], _, _ => steady_history.nothing ()
  | l :: ls, index, hls => by
    have h : Steady it.History := steady_history
    obtain ⟨hl, hls⟩ := List.forall_mem_cons.1 hls
    have hdone : (it.lineDone callback l index).Moves it.History := by
      cases callback with
      | none => exact h.nothing ()
      | some id =>
        intro m
        show it.History m ((Act.enter (.lineDone id index l m.modal) >>= fun _ =>
          it.host.lineDone id l index).after m)
        exact .called (.lineDone hl) fun m' => hit.lineDone m' id index l m.modal
    exact h.follows (hit.moves_interpret hl.words) fun _ => h.follows hdone fun _ =>
      moves_runLines hit callback ls (index + 1) hls

theorem loadText_yields (hit : it.Modest) (text : List Char) (callback : Option String) :
    (it.loadText text callback).Yields it.History fun ls => ∀ l ∈ ls, l.WellFormed := by
  have h : Steady it.History := steady_history
  refine h.yields_call it _ <| yields_get fun m => ?_
  dsimp only
  rw [LineReader.program_reading]
  refine h.leads (linesOf_yields _ _ _) fun ls hls =>
    h.leads (hit.moves_runLines callback ls 0 hls).yields fun _ _ =>
      h.leads (moves_logLoaded it ls.length).yields fun _ _ => h.gives_back hls

theorem loadString_yields (hit : it.Modest) (x : Literal) (callback : Option String) :
    (it.loadString x callback).Yields it.History fun ls => ∀ l ∈ ls, l.WellFormed := by
  have h : Steady it.History := steady_history
  refine h.yields_call it _ ?_
  split
  · exact hit.loadText_yields _ _
  · exact hit.loadText_yields _ _
  · exact h.leads (h.gives _).yields fun _ _ => hit.loadText_yields _ _
  · exact h.leads (h.gives _).yields fun _ _ => hit.loadText_yields _ _
  · exact h.yields_call it _ (h.fails _)

theorem loadFile_yields (hit : it.Modest) (path : Literal) (callback : Option String) :
    (it.loadFile path callback).Yields it.History fun ls => ∀ l ∈ ls, l.WellFormed := by
  have h : Steady it.History := steady_history
  exact h.yields_call it _ <| h.leads (h.gives _).yields fun _ _ => hit.loadText_yields _ _

end Modest

/-! ### What else a client does -/

theorem moves_eventOf (it : Interpreter) (event : String) :
    (it.eventOf event).Moves it.History := by
  have h : Steady it.History := steady_history
  refine h.calls it _ ?_
  split
  · exact h.nothing _
  · exact h.stops _

theorem moves_listen (it : Interpreter) (event listener : String) (once : Bool) :
    (it.listen event listener once).Moves it.History :=
  steady_history.calls it _ <| steady_history.follows (moves_eventOf it event) fun _ _ =>
    .of_eq rfl rfl rfl rfl

theorem moves_unlisten (it : Interpreter) (event : String) (listener : Option String) :
    (it.unlisten event listener).Moves it.History :=
  steady_history.calls it _ <| steady_history.follows (moves_eventOf it event) fun _ _ =>
    .of_eq rfl rfl rfl rfl

theorem moves_listeners (it : Interpreter) (event : String) :
    (it.listeners event).Moves it.History :=
  steady_history.calls it _ <| steady_history.follows (moves_eventOf it event) fun _ =>
    looks fun _ => steady_history.nothing _

theorem Modest.moves_emitNamed (hit : it.Modest) (event : String) {payload : List Payload}
    (hpayload : ∀ x ∈ payload, x.WellFormed) : (it.emitNamed event payload).Moves it.History :=
  steady_history.calls it _ <| steady_history.follows (moves_eventOf it event) fun e =>
    (hit.hearing hpayload).moves_notify e

theorem moves_cancel (it : Interpreter) : cancel.Moves it.History :=
  steady_history.moves_cancel fun _ i =>
    .of_change fun hm => .silent rfl rfl rfl (hm.updateTask i fun _ ht => ht)

theorem moves_handle (it : Interpreter) (script : Script) (stream : String) :
    (script.handle stream).Moves it.History := by
  rw [Script.handle]
  split
  · exact steady_history.nothing _
  · exact steady_history.stops _

theorem moves_close (it : Interpreter) (script : Script) (stream : String) :
    (script.close stream).Moves it.History := by
  have h : Steady it.History := steady_history
  refine h.follows (moves_handle it script stream) fun handle => ?_
  cases handle with
  | missing => exact h.stops _
  | unreadable type => exact h.stops _
  | source i => exact fun m => upkeep_history.closeSource m i
  | stream i =>
    refine h.follows (upkeep_history.moves_streamAt i) fun s => ?_
    split
    · exact fun m => upkeep_history.close m i
    · exact h.stops _

end Interpreter

/-! ### Sessions -/

namespace Session

/-- A client of the interpreter neither sets the modal command nor hands over words of its own. -/
def Step.Ordinary : Step → Prop
  | .update _ | .interpret _ | .dispatch _ _ => False
  | _ => True

/-- The lines of an answer are well-formed. -/
def Answer.WellFormed : Answer → Prop
  | .lines ls => ∀ l ∈ ls, l.WellFormed
  | .tasks results => ∀ ls, .ok (some ls) ∈ results → ∀ l ∈ ls, l.WellFormed
  | _ => True

/-- The machine after some steps. -/
def machineAfter (script : Script) (it : Interpreter) (m : Machine) (awaited : Nat) :
    List Step → Machine
  | [] => m
  | s :: rest =>
    let m' := (perform script it awaited s).after m
    machineAfter script it m' (awaitedAfter m' awaited s) rest

open Interpreter

variable {it : Interpreter} {m : Machine}

theorem perform_yields (hit : it.Modest) (script : Script) (awaited : Nat) {s : Step}
    (hs : s.Ordinary) (hawait : s ≠ .await) (hreset : s ≠ .reset) :
    (perform script it awaited s).Yields it.History Answer.WellFormed := by
  have h : Steady it.History := steady_history
  have hthen : ∀ {α : Type} {a : Act α} {k : α → Answer}, a.Moves it.History →
      (∀ x, (k x).WellFormed) → (a >>= fun x => pure (k x)).Yields it.History Answer.WellFormed :=
    fun ha hk => h.leads ha.yields fun x _ => h.gives_back (hk x)
  have hlines : ∀ {a : Act (List Line)}, a.Yields it.History (fun ls => ∀ l ∈ ls, l.WellFormed) →
      (a >>= fun ls => pure (.lines ls)).Yields it.History Answer.WellFormed :=
    fun ha => h.leads ha fun ls hls => h.gives_back (show Answer.WellFormed (.lines ls) from hls)
  cases s with
  | loadString x callback => exact hlines (hit.loadString_yields x callback)
  | loadFile path callback => exact hlines (hit.loadFile_yields path callback)
  | startText x callback => exact hthen (hit.moves_schedule _ _) fun _ => trivial
  | startFile path callback => exact hthen (hit.moves_schedule _ _) fun _ => trivial
  | startStream stream callback =>
    exact h.leads (moves_handle it script stream).yields fun _ _ =>
      hthen (hit.moves_schedule _ _) fun _ => trivial
  | readStream stream total =>
    exact h.leads (moves_handle it script stream).yields fun _ _ =>
      hlines (hit.readStream_yields _ _ _)
  | await => exact absurd rfl hawait
  | tick n =>
    exact h.leads (hit.moves_rounds n).yields fun _ _ => yields_get fun _ => h.gives_back trivial
  | cancel => exact hthen (moves_cancel it) fun _ => trivial
  | close stream => exact hthen (moves_close it script stream) fun _ => trivial
  | reset => exact absurd rfl hreset
  | update code => exact absurd hs id
  | interpret ws => exact absurd hs id
  | dispatch code args => exact absurd hs id
  | status =>
    exact h.yields_call it _ <| h.leads (h.gives _).yields fun _ _ =>
      yields_get fun _ => h.gives_back trivial
  | listen event listener once => exact hthen (moves_listen it event listener once) fun _ => trivial
  | unlisten event listener => exact hthen (moves_unlisten it event listener) fun _ => trivial
  | emit event payload =>
    refine hthen (hit.moves_emitNamed event fun x hx => ?_) fun _ => trivial
    obtain ⟨_, -, rfl⟩ := List.mem_map.1 hx
    trivial
  | listeners event => exact hthen (moves_listeners it event) fun _ => trivial
  | setHandler code handler =>
    exact hthen (fun _ => .of_eq rfl rfl rfl rfl) fun _ => trivial
  | nothing => exact h.gives_back trivial
  | refused f => exact h.fails f

/-- A task that ended with lines has well-formed ones. -/
theorem resultOf_wellFormed {task : Task} (htask : task.stage.WellFormed) {ls : List Line}
    (h : resultOf task = .ok (some ls)) : ∀ l ∈ ls, l.WellFormed := by
  rw [resultOf] at h
  split at h
  · rename_i hstage
    rw [hstage] at htask
    exact htask ls h
  · cases h

/-- The modal command of a report is empty or well-formed, and so are the lines of its answer. -/
structure Report.WellFormed (r : Report) : Prop where
  modal : r.modal = "" ∨ IsCode r.modal
  outcome : ∀ a, r.outcome = .ok a → a.WellFormed

end Session

/-! ### Changes of sound machines -/

/-- What comes to pass on a sound machine, and leaves it sound. The library never makes the modal
command empty; host code that has just been called may do so by a reset, and so may the client,
where it is said that he resets the interpreter. -/
inductive Interpreter.SoundChange (it : Interpreter) (resets : Prop) (m : Machine) : Machine → Prop
  | library {m' : Machine} : it.Change m m' → m'.Sound → (m.modal ≠ "" → m'.modal ≠ "") →
      SoundChange it resets m m'
  | host {x : Entry} : it.Calling m x →
      Relation.ReflTransGen (fun n n' => it.HostChange n n' ∧ n'.Sound ∧
        (n.modal ≠ "" → n'.modal = "" → n' = reset.after n)) m ((x.call it).after m) →
          SoundChange it resets m ((x.call it).after m)
  | client : resets → m.Sound → SoundChange it resets m (reset.after m)

/-- What happens in a session: in each step sound changes, among which the client resets the
interpreter in no step but one that says so. -/
inductive Session.Unfolds (script : Script) (it : Interpreter) : Machine → Nat → List Step → Prop
  | nil {m : Machine} {awaited : Nat} : Unfolds script it m awaited []
  | step {m : Machine} {awaited : Nat} {s : Step} {rest : List Step} :
      Relation.ReflTransGen (it.SoundChange (s = .reset)) m
        ((perform script it awaited s).after m) →
          Unfolds script it ((perform script it awaited s).after m)
            (awaitedAfter ((perform script it awaited s).after m) awaited s) rest →
              Unfolds script it m awaited (s :: rest)

namespace Session

open Interpreter

variable {it : Interpreter} {m m' : Machine}

theorem soundHostChanges (hm : m.Sound) (h : Relation.ReflTransGen it.HostChange m m') :
    Relation.ReflTransGen (fun n n' => it.HostChange n n' ∧ n'.Sound ∧
      (n.modal ≠ "" → n'.modal = "" → n' = reset.after n)) m m' := by
  induction h with
  | refl => exact .refl
  | tail hbefore hchange ih =>
    have hsound := sound_of_hostChanges hbefore hm
    exact ih.tail ⟨hchange, hchange.sound hsound, hchange.eq_reset⟩

theorem soundChanges {resets : Prop} (hm : m.Sound)
    (h : Relation.ReflTransGen it.Occurs m m') :
    Relation.ReflTransGen (it.SoundChange resets) m m' := by
  induction h with
  | refl => exact .refl
  | tail hbefore hhappens ih =>
    have hsound := sound_of_history hbefore hm
    cases hhappens with
    | library hchange => exact ih.tail (.library hchange (hchange.sound hsound) hchange.modal_ne)
    | host hcalling hchanges => exact ih.tail (.host hcalling (soundHostChanges hsound hchanges))

/-- A client may reset the interpreter, unless something stands in front of that. -/
theorem perform_reset (script : Script) (it : Interpreter) (awaited : Nat) (m : Machine) :
    (perform script it awaited .reset).after m = reset.after m ∨
      (perform script it awaited .reset).after m = m := by
  have hperform : perform script it awaited .reset =
      it.call .reset reset >>= fun _ => pure .nothing := rfl
  rw [hperform, call, require]
  cases it.dialect.obstacle? .reset with
  | none => exact .inl rfl
  | some f => exact .inr rfl

/-- What a client does on a sound machine leads through sound changes, and is answered with
well-formed lines. -/
theorem perform_sound (hit : it.Modest) (script : Script) (awaited : Nat) {s : Step}
    (hs : s.Ordinary) (hm : m.Sound) :
    Relation.ReflTransGen (it.SoundChange (s = .reset)) m
        ((perform script it awaited s).after m) ∧
      ((perform script it awaited s).after m).Sound ∧
      ∀ a m', perform script it awaited s m = .ok a m' → a.WellFormed := by
  by_cases hreset : s = .reset
  · subst hreset
    refine ⟨?_, ?_, fun a m' h => ?_⟩
    · rcases perform_reset script it awaited m with heq | heq
      · rw [heq]
        exact .single (.client rfl hm)
      · rw [heq]
    · rcases perform_reset script it awaited m with heq | heq
      · rw [heq]
        exact ⟨.inl rfl, hm.tasks⟩
      · rwa [heq]
    · obtain ⟨_, _, -, h⟩ := bind_eq_ok h
      cases h
      trivial
  by_cases hawait : s = .await
  · subst hawait
    have hsettle := hit.moves_settle patience
    have hmoves : (perform script it awaited .await).Moves it.History :=
      steady_history.follows hsettle fun _ => looks fun _ => steady_history.nothing _
    refine ⟨soundChanges hm (hmoves m hm), sound_of_history (hmoves m hm) hm, fun a m' h => ?_⟩
    obtain ⟨_, _, hsettled, h⟩ := bind_eq_ok h
    cases h
    have hm' : m'.Sound := sound_of_history (hsettle.of_ok hsettled hm) hm
    intro ls hls
    obtain ⟨task, htask, hresult⟩ := List.mem_map.1 hls
    exact resultOf_wellFormed (hm'.tasks task (List.mem_of_mem_drop htask)) hresult
  · have hyields := perform_yields hit script awaited hs hawait hreset
    have hhistory := hyields.moves m hm
    exact ⟨soundChanges hm hhistory, sound_of_history hhistory hm,
      fun a m' => hyields.value m a m'⟩

end Session

/-- Every line that is read is well-formed. A client loads texts and files, at once or in the
background, and resets the interpreter now and then, whose host code is modest when it is called
properly. Then it is never called otherwise: all that happens is one change after another, each of
which leads to a sound machine, hands over well-formed data only, and dispatches by the modal
command. The library never makes that empty; only the client who resets the interpreter does, or
host code that does so when it is called. All lines that the client is answered with are
well-formed, too. -/
theorem session_wellFormed (script : Script) (it : Interpreter) (hit : it.Modest)
    (steps : List Session.Step) (hsteps : ∀ s ∈ steps, s.Ordinary) (m : Machine) (hm : m.Sound)
    (awaited : Nat) :
    (∀ strict text place l, Line.parse strict text place = .ok (some l) → l.WellFormed) ∧
    Session.Unfolds script it m awaited steps ∧
      ∀ r ∈ Session.runFrom script it m awaited steps, r.WellFormed := by
  refine ⟨fun _ _ _ _ => Line.parse_wellFormed, ?_⟩
  induction steps generalizing m awaited with
  | nil => exact ⟨.nil, fun r hr => absurd hr List.not_mem_nil⟩
  | cons s steps ih =>
    obtain ⟨hs, hsteps⟩ := List.forall_mem_cons.1 hsteps
    obtain ⟨hchanges, hm', hanswer⟩ := Session.perform_sound hit script awaited hs hm
    obtain ⟨hunfolds, hreports⟩ := ih hsteps _ hm' (Session.awaitedAfter _ awaited s)
    refine ⟨.step hchanges hunfolds, ?_⟩
    rw [Act.after] at hm' hreports
    rw [Session.runFrom]
    cases hperform : Session.perform script it awaited s m with
    | ok a m' =>
      rw [hperform] at hm' hreports
      refine List.forall_mem_cons.2 ⟨⟨hm'.modal, ?_⟩, hreports⟩
      rintro _ ⟨⟩
      exact hanswer a m' hperform
    | error f m' =>
      rw [hperform] at hm' hreports
      exact List.forall_mem_cons.2 ⟨⟨hm'.modal, by rintro _ ⟨⟩⟩, hreports⟩

/-! ### A client that loads and resets -/

/-- An interpreter that is reset whenever a load ends. -/
def forgetful : Interpreter where
  host := { Host.silent with listener := fun _ _ => Interpreter.reset }

/-- A handler, and a listener for the end of loads. -/
def forgetfulStart : Machine where
  handlers := Table.ofList [("G1", .callable "cut")]
  registry := ({} : Registry).add .ended "ears" false

/-- A load at once, a load in the background, and a reset. -/
def forgetfulSteps : List Session.Step :=
  [.loadString (.text "G1 X1\nX2") none, .startText (.text "M3") none, .await, .reset]

theorem modest_forgetful : forgetful.Modest where
  handler _ _ _ _ _ := .refl
  handler_modal _ _ _ _ := rfl
  handler_args _ _ _ _ _ _ h := by cases h; rfl
  method _ _ _ _ _ := .refl
  listener _ _ _ _ _ := .single .reset
  callback _ _ _ _ _ := .refl
  lineDone _ _ _ _ _ _ _ := .refl
  renew _ _ h := by cases h

/-- The load at once calls the handler twice and leaves the modal command `G1`. -/
theorem session_wellFormed_forgetful :
    Session.Unfolds {} forgetful forgetfulStart 0 forgetfulSteps ∧
    let m := Session.machineAfter {} forgetful forgetfulStart 0 (forgetfulSteps.take 1)
    m.journal.length = 2 ∧ m.modal = "G1" := by
  have hstart : forgetfulStart.Sound := ⟨.inl rfl, fun _ h => absurd h List.not_mem_nil⟩
  have hsteps : ∀ s ∈ forgetfulSteps, s.Ordinary := by
    simp [forgetfulSteps, Session.Step.Ordinary]
  obtain ⟨-, hunfolds, -⟩ :=
    session_wellFormed {} forgetful modest_forgetful forgetfulSteps hsteps forgetfulStart hstart 0
  exact ⟨hunfolds, by decide +kernel⟩

end Gcode
