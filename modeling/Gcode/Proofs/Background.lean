import Gcode.Proofs.Completion
import Gcode.Proofs.Stages

/-!
Loads in the background that are left alone. A task opens a stream of its own and takes the first
data from it in its first turn; in every later turn it takes in the data at hand and gives up the
turn at the next read. If whatever is called returns, and if nobody touches the load, every turn
brings it one piece nearer to the end of its document, or to the first line that is refused. Main
statement: such a load ends with what its document gives, which it announces and tells its callback
(`Undisturbed.concludes`).
-/

namespace Gcode

open Act
open Gcode.Text

/-! ### Leaving a load alone -/

/-- A task is the same as before. -/
def Machine.HoldsTask (i : Nat) (m m' : Machine) : Prop :=
  ∀ task : Task, m.tasks[i]? = some task → m'.tasks[i]? = some task

/-- A load in the background is left alone: its task is the same; before its first turn, so is
whether lines are refused; and afterwards its source reads the same stream, from which nothing has
been taken meanwhile. -/
structure Machine.LeavesAlone (i : Nat) (m m' : Machine) : Prop where
  task : m.HoldsTask i m'
  strict : ∀ task : Task, m.tasks[i]? = some task → task.stage = .scheduled → m'.strict = m.strict
  reads : ∀ (task : Task) (load : Load) (src : Source) (s : Stream), m.tasks[i]? = some task →
    task.stage = .reading load → m.Reads load.source src s → ∃ src', m'.Reads load.source src' s

namespace Machine

variable {m m' : Machine} {i : Nat}

theorem steady_holdsTask (i : Nat) : Steady (HoldsTask i) where
  refl _ _ h := h
  trans h h' task htask := h' task (h task htask)

theorem steady_leavesAlone (i : Nat) : Steady (LeavesAlone i) where
  refl m := ⟨(steady_holdsTask i).refl m, fun _ _ _ => rfl, fun _ _ src _ _ _ h => ⟨src, h⟩⟩
  trans h h' := by
    refine ⟨(steady_holdsTask i).trans h.task h'.task, ?_, ?_⟩
    · intro task htask hstage
      rw [h'.strict task (h.task task htask) hstage, h.strict task htask hstage]
    · intro task load src s htask hstage hreads
      obtain ⟨src', hreads'⟩ := h.reads task load src s htask hstage hreads
      exact h'.reads task load src' s (h.task task htask) hstage hreads'

theorem leavesAlone_of_eq (htasks : m'.tasks = m.tasks) (hstrict : m'.strict = m.strict)
    (hsources : m'.sources = m.sources) (hstreams : m'.streams = m.streams) :
    m.LeavesAlone i m' where
  task task htask := by rw [htasks, htask]
  strict _ _ _ := hstrict
  reads _ _ src _ _ _ h := ⟨src, by rw [hsources, h.source], by rw [hstreams, h.stream]⟩

theorem HoldsTask.keepsTask (h : m.HoldsTask i m') : m.KeepsTask i m' :=
  fun task htask => ⟨task.cancelled, h task htask⟩

theorem Reads.enterStage {k : Nat} {src : Source} {s : Stream} (h : m.Reads k src s) (i : Nat)
    (stage : Stage) : (m.enterStage i stage).Reads k src s := by
  obtain ⟨queue, heq⟩ := m.enterStage_eq i stage
  rw [heq]
  exact ⟨h.source, h.stream⟩

end Machine

theorem Stream.Yields.read {size : Int} {s : Stream} {ps : List Piece} (h : s.Yields size ps) :
    ∃ data s', s.read size = (.ok data, s') ∧ s'.waits = s.waits := by
  cases h with
  | done hread | more hread =>
    have hwaits := s.read_waits size
    rw [hread] at hwaits
    exact ⟨_, _, hread, hwaits⟩

/-- A load has taken data of a stream, and the pieces that it has still to take in, the data among
them, bring it to an outcome. What is left of the stream gives up the turn at every read. -/
structure Load.Approaches (size : Int) (load : Load) (s : Stream) (ps : List Piece) (r : Outcome) :
    Prop where
  taken : ∃ (data : Literal) (before : Stream), load.wait = .taken data ∧
    before.read size = (.ok data, s) ∧ before.Yields size ps
  waits : s.waits = none
  lines : ∃ strict text, load.reader = .reached strict text ∧
    (readingOfRest strict text (documentOf load.decoder ps)).lines.map (load.lines ++ ·) = r

namespace Interpreter

variable {it : Interpreter} {m m' : Machine} {i : Nat} {task : Task} {load : Load} {src : Source}
  {s : Stream} {p : Piece} {ps : List Piece} {r : Outcome} {strict : Bool} {text : List Char}

theorem Respects.holdsTask (h : it.Respects (Machine.LeavesAlone i)) :
    it.Habits (Machine.HoldsTask i) :=
  (h.mono fun _ _ halone => halone.task).habits (Machine.steady_holdsTask i)
    fun _ _ htasks _ _ htask => by rw [htasks, htask]

theorem Respects.leavesAlone (h : it.Respects (Machine.LeavesAlone i)) :
    it.Delivery (Machine.LeavesAlone i) where
  toSteady := Machine.steady_leavesAlone i
  log _ _ _ := Machine.leavesAlone_of_eq rfl rfl rfl rfl
  deals _ _ := Machine.leavesAlone_of_eq rfl rfl rfl rfl
  call _ _ _ := Machine.leavesAlone_of_eq rfl rfl rfl rfl
  spend _ _ _ := Machine.leavesAlone_of_eq rfl rfl rfl rfl
  modal _ _ := Machine.leavesAlone_of_eq rfl rfl rfl rfl
  handler := h.handler
  method := h.method
  listener := h.listener
  answer := h.answer

/-- Whatever is called returns, and leaves the load of a task alone. -/
structure Undisturbed (it : Interpreter) (i : Nat) : Prop where
  attentive : it.Attentive
  returning : it.Returning
  respects : it.Respects (Machine.LeavesAlone i)

/-! ### Taking in the document -/

/-- Lines are delivered if listeners and handlers return. -/
theorem Returning.deliver_returns (h : it.Returning) (hlistening : it.Listening) :
    ∀ (ls : List Line) (m : Machine), ∃ m', it.deliver ls m = .ok () m'
  | [], m => ⟨m, rfl⟩
  | l :: ls, m => by
    obtain ⟨heard, m₁, hemit⟩ := hlistening.emit_returns .data [.line l] m
    obtain ⟨cs, m₂, hinterpret⟩ := h.interpret_returns hlistening.intact l.words m₁
    obtain ⟨m₃, hrest⟩ := h.deliver_returns hlistening ls m₂
    have hline : it.call .deliver (do
        let _ ← it.emit .data [.line l]
        let _ ← it.interpret l.words) m = .ok () m₂ := by
      rw [hlistening.intact.call_eq, bind_ok hemit, bind_ok hinterpret]
      rfl
    rw [deliver, bind_ok hline]
    exact ⟨m₃, hrest⟩

/-- A task has its turn. Its load reads a source of which a stream is left. -/
structure AtWork (i : Nat) (task : Task) (source : Nat) (s : Stream) (m : Machine) : Prop where
  there : m.tasks[i]? = some task
  reading : ∃ load, task.stage = .reading load ∧ load.source = source
  reads : ∃ src, m.Reads source src s

theorem AtWork.left {source : Nat} (h : AtWork i task source s m) (hm : m.LeavesAlone i m') :
    AtWork i task source s m' := by
  obtain ⟨load, hstage, rfl⟩ := h.reading
  obtain ⟨src, hreads⟩ := h.reads
  exact ⟨hm.task task h.there, h.reading, hm.reads task load src s h.there hstage hreads⟩

/-- A piece of the document is taken in if the lines that it completes are read. -/
theorem Undisturbed.ingest_goes (hit : it.Undisturbed i) (hm : AtWork i task load.source s m)
    {now : List Line} (hnow : (load.reader.feed (p.decode load.decoder).1).1.lines = .ok now) :
    ∃ load' m', it.ingest load p m = .ok load' m' ∧ load'.source = load.source ∧
      load'.decoder = (p.decode load.decoder).2 ∧
      load'.reader = (load.reader.feed (p.decode load.decoder).1).2 ∧
      load'.lines = load.lines ++ now ∧ AtWork i task load.source s m' := by
  have hlistening := hit.attentive.toListening
  obtain ⟨log, hlines⟩ := linesOf_eq_ok hnow m
  have hlogged : m.LeavesAlone i { m with log } := Machine.leavesAlone_of_eq rfl rfl rfl rfl
  obtain ⟨m₁, hdeliver⟩ := hit.returning.deliver_returns hlistening now { m with log }
  have h₁ : AtWork i task load.source s m₁ :=
    (hm.left hlogged).left ((hit.respects.leavesAlone.moves_deliver now).of_ok hdeliver)
  obtain ⟨src, hreads⟩ := h₁.reads
  obtain ⟨heard, m₂, hemit⟩ :=
    hlistening.emit_returns .progress [.progress src.consumed src.total] m₁
  have hprogress : it.announceProgress load.source m₁ = .ok () m₂ := by
    rw [announceProgress_eq hreads.source]
    exact bind_ok hemit _
  refine ⟨{ load with
      decoder := (p.decode load.decoder).2
      reader := (load.reader.feed (p.decode load.decoder).1).2
      lines := load.lines ++ now }, m₂, ?_, rfl, rfl, rfl, rfl,
    h₁.left ((hit.respects.leavesAlone.moves_emit _ _).of_ok hemit)⟩
  rw [ingest_eq, bind_ok hlines, bind_ok hdeliver, bind_ok hprogress]
  rfl

/-- A piece of the document with a line that is refused ends the load. -/
theorem ingest_refused {f : Fault}
    (hnow : (load.reader.feed (p.decode load.decoder).1).1.lines = .error f) (m : Machine) :
    ∃ m', it.ingest load p m = .error f m' := by
  obtain ⟨log, hlines⟩ := linesOf_error hnow m
  exact ⟨{ m with log }, by rw [ingest_eq, bind_error hlines]⟩

/-- The end of the document brings the load to its outcome. -/
theorem Undisturbed.finish_comes (hit : it.Undisturbed i)
    (hreader : load.reader = .reached strict text) (m : Machine) :
    ∃ m', it.finish load m = ofExcept
      ((readingOfRest strict text load.decoder.finish).lines.map (load.lines ++ ·)) m' := by
  have hdelivers := hit.returning.deliver_returns hit.attentive.toListening
  rw [finish_eq, readingOfRest_finish, ← hreader]
  cases hcompleted : (load.reader.feed load.decoder.finish).1.lines with
  | error f =>
    obtain ⟨log, hlines⟩ := linesOf_error hcompleted m
    exact ⟨{ m with log }, bind_error hlines _⟩
  | ok completed =>
    obtain ⟨log, hlines⟩ := linesOf_eq_ok hcompleted m
    obtain ⟨m₁, hdeliver⟩ := hdelivers completed { m with log }
    rw [bind_ok hlines, bind_ok hdeliver]
    cases hlast : (load.reader.feed load.decoder.finish).2.flush.1.lines with
    | error f =>
      obtain ⟨log', hlines'⟩ := linesOf_error hlast m₁
      exact ⟨{ m₁ with log := log' }, bind_error hlines' _⟩
    | ok last =>
      obtain ⟨log', hlines'⟩ := linesOf_eq_ok hlast m₁
      obtain ⟨m₂, hdeliver'⟩ := hdelivers last { m₁ with log := log' }
      rw [bind_ok hlines', bind_ok hdeliver', List.append_assoc]
      exact ⟨m₂, rfl⟩

/-! ### Turns of the load -/

/-- A load that goes on to the next read gives up its turn. -/
theorem advanceRest_approaches (load : Load) (hm : m.Reads load.source src s)
    (hwaits : s.waits = none) (hyields : s.Yields it.chunkSize ps)
    (hreader : load.reader = .reached strict text) :
    ∃ load' s' m', it.advanceRest (.inl load) m = .ok (.waiting load') m' ∧
      (∃ src, m'.Reads load'.source src s') ∧ load'.Approaches it.chunkSize s' ps
        ((readingOfRest strict text (documentOf load.decoder ps)).lines.map (load.lines ++ ·)) := by
  obtain ⟨data, s', hread, hsame⟩ := hyields.read
  obtain ⟨limit, -, hadvance⟩ := it.advanceRest_inl hm
  refine ⟨{ load with wait := .taken data }, s', _, ?_, ⟨src, hm.updateStream s'⟩,
    ⟨data, s, rfl, hread, hyields⟩, hsame.trans hwaits, strict, text, hreader, rfl⟩
  rw [hadvance, proceed_at_once hm hwaits, bind_ok (take_eq_ok hm hread)]
  rfl

/-- A load that has taken nothing goes on to the end of its document. -/
theorem resume_end {data : Literal} (hwait : load.wait = .taken data)
    (hp : Piece.ofLiteral? data = some p) (hlen : p.length = 0) (m : Machine) :
    it.resume load m = (it.finish load >>= fun ls => pure (.finished ls))
      (m.countRead (m.passage load.source) p.length) := by
  rw [resume, hwait]
  dsimp only
  rw [advanceWith_eq, receive, bind_assoc, bind_ok (accept_eq_ok hp), if_pos hlen, bind_assoc]
  rfl

/-- A load that has taken a piece takes it in and goes on to the next read. -/
theorem resume_piece {data : Literal} (hwait : load.wait = .taken data)
    (hp : Piece.ofLiteral? data = some p) (hlen : p.length ≠ 0) (m : Machine) :
    it.resume load m = (it.ingest load p >>= fun l => it.advanceRest (.inl l))
      (m.countRead (m.passage load.source) p.length) := by
  rw [resume, hwait]
  dsimp only
  rw [advanceWith_eq, receive, bind_assoc, bind_ok (accept_eq_ok hp), if_neg hlen, bind_assoc]
  rfl

/-- What a turn comes to that ends a load with an outcome. -/
def Closing (turn : Act Turn) (m : Machine) (r : Outcome) : Prop :=
  ∃ m', turn m = (ofExcept r >>= fun ls => pure (.finished ls)) m'

/-- A load that has only the end of its document before it comes to its outcome. -/
theorem Undisturbed.resume_last (hit : it.Undisturbed i)
    (hload : load.Approaches it.chunkSize s [] r) (m : Machine) : Closing (it.resume load) m r := by
  obtain ⟨data, before, hwait, hread, hyields⟩ := hload.taken
  obtain ⟨strict, text, hreader, rfl⟩ := hload.lines
  cases hyields with
  | @done _ s' x p hread' hp hlen =>
    cases hread.symm.trans hread'
    obtain ⟨m', hfinish⟩ := hit.finish_comes hreader (m.countRead (m.passage load.source) p.length)
    exact ⟨m', (resume_end hwait hp hlen m).trans (bind_congr_left hfinish _)⟩

/-- A load with a piece at hand takes it in and goes on to the next, or comes to its outcome. -/
theorem Undisturbed.resume_next (hit : it.Undisturbed i) (hm : AtWork i task load.source s m)
    (hload : load.Approaches it.chunkSize s (p :: ps) r) :
    Closing (it.resume load) m r ∨
      ∃ load' s' m', it.resume load m = .ok (.waiting load') m' ∧
        (∃ src, m'.Reads load'.source src s') ∧ load'.Approaches it.chunkSize s' ps r := by
  obtain ⟨data, before, hwait, hread, hyields⟩ := hload.taken
  obtain ⟨strict, text, hreader, rfl⟩ := hload.lines
  cases hyields with
  | @more _ s' x _ _ hread' hp hlen hyields =>
    cases hread.symm.trans hread'
    have hcounted : AtWork i task load.source s
        (m.countRead (m.passage load.source) p.length) := by
      obtain ⟨src, hreads⟩ := hm.reads
      refine ⟨?_, hm.reading, _, hreads.countRead _ _⟩
      exact hit.respects.holdsTask.count m _ _ task hm.there
    have hresume := it.resume_piece hwait hp hlen m
    rw [documentOf, readingOfRest_append, ← hreader]
    cases hnow : (load.reader.feed (p.decode load.decoder).1).1.lines with
    | error f =>
      obtain ⟨m', hingest⟩ := it.ingest_refused hnow (m.countRead (m.passage load.source) p.length)
      exact .inl ⟨m', hresume.trans (bind_error hingest _)⟩
    | ok now =>
      obtain ⟨load₁, m₁, hingest, hsource, hdecoder, hreader₁, hlines₁, h₁⟩ :=
        hit.ingest_goes hcounted hnow
      rw [← hsource] at h₁
      obtain ⟨src₁, hreads₁⟩ := h₁.reads
      rw [hreader] at hnow hreader₁
      obtain ⟨load', s', m', hadvance, hreads', hload'⟩ := advanceRest_approaches load₁ hreads₁
        hload.waits hyields (hreader₁.trans (LineReader.feed_reached hnow).2)
      refine .inr ⟨load', s', m', ?_, hreads', ?_⟩
      · rw [hresume, bind_ok hingest, hadvance]
      · rw [hdecoder, hlines₁] at hload'
        convert hload' using 1
        cases (readingOfRest strict (text ++ (p.decode load.decoder).1)
          (documentOf (p.decode load.decoder).2 ps)).lines with
        | error f => rfl
        | ok rest => exact congrArg Except.ok (List.append_assoc ..).symm

/-! ### Turns of the task -/

/-- A turn that ends a load ends its task, after everyone was told. -/
theorem Attentive.runTurn_closing (h : it.Attentive) (task : Task) (handle : Handle)
    {turn : Act Turn} (hturn : Closing turn m r) :
    ∃ m', it.runTurn task handle turn m = .ok (.done (resultOf (.ok ()) r)) m' := by
  obtain ⟨m₁, hturn⟩ := hturn
  rcases r with f | ls
  · have hfails : turn m = .error f m₁ := hturn
    obtain ⟨m₂, hannounce⟩ := h.announceFault_returns f m₁
    have hannounced : it.announced turn m = .error f (if f.isLoad then m₂ else m₁) := by
      rw [announced_error hfails, failed_eq hannounce]
    cases hf : f.isLoad with
    | true =>
      rw [hf, if_pos rfl] at hannounced
      obtain ⟨m₃, htold⟩ := h.complete_returns task.callback (.error f) m₂
      refine ⟨released task handle m₃, ?_⟩
      rw [runTurn_failing hannounced hf (attempt_ok htold), stageAfter_eq, resultOf, if_pos hf]
    | false =>
      have hresult : resultOf (.ok ()) (.error f) = .error f.leaving := by
        rw [resultOf, hf]
        rfl
      exact ⟨_, hresult ▸ runTurn_passing hannounced hf⟩
  · have hends : turn m = .ok (.finished ls) m₁ := hturn
    obtain ⟨log, hlog⟩ : ∃ log, logLoaded ls.length m₁ = .ok () { m₁ with log } := ⟨_, rfl⟩
    obtain ⟨heard, m₂, hemit⟩ := h.emit_returns .ended [.results ls] { m₁ with log }
    have hannounced : it.announced turn m = .ok (.finished ls) m₂ := by
      rw [announced_finished hends, succeeded, bind_assoc, bind_ok hlog, bind_assoc, bind_ok hemit]
      rfl
    obtain ⟨m₃, htold⟩ := h.complete_returns task.callback (.ok ls) (released task handle m₂)
    exact ⟨m₃, runTurn_finished hannounced (attempt_ok htold)⟩

/-- A task is underway: its load has taken data and approaches an outcome. -/
def Underway (it : Interpreter) (i : Nat) (ps : List Piece) (r : Outcome) (m : Machine) : Prop :=
  ∃ (task : Task) (load : Load) (s : Stream), m.tasks[i]? = some task ∧ task.cancelled = false ∧
    task.stage = .reading load ∧ (∃ src, m.Reads load.source src s) ∧
    load.Approaches it.chunkSize s ps r

/-- A task has ended with the outcome of its load. -/
def Concluded (i : Nat) (r : Outcome) (m : Machine) : Prop :=
  m.tasks[i]?.map Task.stage = some (.done (resultOf (.ok ()) r))

theorem Underway.left (h : it.Underway i ps r m) (hm : m.LeavesAlone i m') :
    it.Underway i ps r m' := by
  obtain ⟨task, load, s, htask, hcancelled, hstage, ⟨src, hreads⟩, hload⟩ := h
  exact ⟨task, load, s, hm.task task htask, hcancelled, hstage,
    hm.reads task load src s htask hstage hreads, hload⟩

/-- A turn brings the task to the stage that it comes to. -/
theorem Undisturbed.runTask_after (hit : it.Undisturbed i) (htask : m.tasks[i]? = some task)
    {stage : Stage} (hadvance : it.advance task m = .ok stage m') :
    (it.runTask i).after m = m'.enterStage i stage ∧
      (m'.enterStage i stage).tasks[i]? = some { task with stage } := by
  refine ⟨by rw [after, runTask_eq htask hadvance], enterStage_task ?_ stage⟩
  exact (hit.respects.holdsTask.moves_advance task).of_ok hadvance task htask

/-- Whenever a task opens what it is to load, it gets a source of its own, which reads a stream. -/
def Opens (it : Interpreter) (origin : Origin) (s : Stream) : Prop :=
  ∀ m : Machine, ∃ k src m', it.openOrigin origin m = .ok (.source k) m' ∧ m'.core = m.core ∧
    (Handle.source k).StandsFor m' src s

/-- In its first turn a task that can open what it loads comes underway. -/
theorem Undisturbed.turn_first (hit : it.Undisturbed i) {e : Encoding}
    (he : encodingNamed it.encoding = .ok e) (htask : m.tasks[i]? = some task)
    (hstage : task.stage = .scheduled) (hcancelled : task.cancelled = false)
    (hopens : it.Opens task.origin s) (hwaits : s.waits = none)
    (hyields : s.Yields it.chunkSize ps) :
    it.Underway i ps
      (LineReader.program { strict := m.strict } (documentOf { encoding := e } ps)).1.lines
      ((it.runTask i).after m) := by
  obtain ⟨k, src, m₁, hopen, hcore, hsource⟩ := hopens m
  obtain ⟨k', m₂, hprepare, -, hreads, -⟩ := prepare_eq hit.attentive.intact he hsource .null
  have hstrict : m₁.strict = m.strict := Machine.eq_of_core hcore _ fun _ => rfl
  rw [hstrict] at hprepare
  obtain ⟨load, s', m', hadvance, ⟨src', hreads'⟩, hload⟩ :=
    it.advanceRest_approaches ⟨k', { strict := m.strict }, { encoding := e }, [], .turns 0⟩ hreads
      hwaits hyields (LineReader.reached_nil m.strict).symm
  have hbegin : it.begin (.source k) .null m₁ = .ok (.waiting load) m' := by
    rw [begin_eq, bind_ok hprepare]
    exact hadvance
  have hfirst : it.advance task m = .ok (.reading load) m' := by
    rw [advance_scheduled hstage hcancelled, startTask_opened hopen,
      runTurn_waiting (announced_waiting hbegin)]
  obtain ⟨hafter, hentered⟩ := hit.runTask_after htask hfirst
  rw [hafter, ← readingOfRest_nil]
  refine ⟨_, load, s', hentered, hcancelled, rfl, ⟨src', hreads'.enterStage i _⟩, ?_⟩
  convert hload using 1
  cases (readingOfRest m.strict [] (documentOf { encoding := e } ps)).lines <;> rfl

/-- The turn in which a load comes to its outcome is the last of its task. -/
theorem Undisturbed.turn_closing (hit : it.Undisturbed i) (htask : m.tasks[i]? = some task)
    (hstage : task.stage = .reading load) (hcancelled : task.cancelled = false)
    (hclosing : Closing (it.resume load) m r) : Concluded i r ((it.runTask i).after m) := by
  obtain ⟨m', hrun⟩ := hit.attentive.runTurn_closing task (.source load.source) hclosing
  rw [← advance_reading hstage hcancelled] at hrun
  obtain ⟨hafter, hentered⟩ := hit.runTask_after htask hrun
  rw [Concluded, hafter, hentered]
  rfl

/-- At the end of the document the task ends. -/
theorem Undisturbed.turn_last (hit : it.Undisturbed i) (h : it.Underway i [] r m) :
    Concluded i r ((it.runTask i).after m) := by
  obtain ⟨task, load, s, htask, hcancelled, hstage, -, hload⟩ := h
  exact hit.turn_closing htask hstage hcancelled (hit.resume_last hload m)

/-- Before the end of the document the task takes in a piece and stays underway, or it ends. -/
theorem Undisturbed.turn_next (hit : it.Undisturbed i) (h : it.Underway i (p :: ps) r m) :
    Concluded i r ((it.runTask i).after m) ∨ it.Underway i ps r ((it.runTask i).after m) := by
  obtain ⟨task, load, s, htask, hcancelled, hstage, hreads, hload⟩ := h
  rcases hit.resume_next ⟨htask, ⟨load, hstage, rfl⟩, hreads⟩ hload with
    hclosing | ⟨load', s', m', hresume, ⟨src, hreads'⟩, hload'⟩
  · exact .inl (hit.turn_closing htask hstage hcancelled hclosing)
  · have hadvance : it.advance task m = .ok (.reading load') m' := by
      rw [advance_reading hstage hcancelled, runTurn_waiting (announced_waiting hresume)]
    obtain ⟨hafter, hentered⟩ := hit.runTask_after htask hadvance
    rw [hafter]
    exact .inr ⟨_, load', s', hentered, hcancelled, rfl, ⟨src, hreads'.enterStage i _⟩, hload'⟩

/-! ### On the event loop -/

section Schedules

variable {schedule : Nat → Move}

/-- A task that is underway, left alone between its turns, and has turns again and again ends. The
induction is on the pieces that are still to be taken in, one in every turn. -/
theorem Undisturbed.underway_ends (hit : it.Undisturbed i)
    (hothers : ∀ n, schedule n ≠ .turn i →
      (it.runs schedule m n).LeavesAlone i (it.runs schedule m (n + 1)))
    (hfair : Fair i schedule) : ∀ (ps : List Piece) (t : Nat),
      it.Underway i ps r (it.runs schedule m t) → ∃ t', Concluded i r (it.runs schedule m t') := by
  -- the turn comes, and the task is still as it was
  have hcomes : ∀ {ps : List Piece} {t : Nat}, it.Underway i ps r (it.runs schedule m t) →
      ∃ t', it.Underway i ps r (it.runs schedule m t') ∧
        it.runs schedule m (t' + 1) = (it.runTask i).after (it.runs schedule m t') := by
    intro ps t h
    obtain ⟨later, hlater⟩ := hfair t
    obtain ⟨t', -, hturn, hunderway⟩ :=
      next_turn (P := fun n => it.Underway i ps r (it.runs schedule m n))
        (fun n hn hunderway => hunderway.left (hothers n hn)) h later hlater
    exact ⟨t', hunderway, by rw [runs, hturn, Move.act]⟩
  intro ps
  induction ps with
  | nil =>
    intro t h
    obtain ⟨t', hunderway, hnext⟩ := hcomes h
    exact ⟨t' + 1, hnext ▸ hit.turn_last hunderway⟩
  | cons p ps ih =>
    intro t h
    obtain ⟨t', hunderway, hnext⟩ := hcomes h
    rcases hit.turn_next hunderway with hend | hgoes
    · exact ⟨t' + 1, hnext ▸ hend⟩
    · exact ih (t' + 1) (hnext ▸ hgoes)

/-- The load of a task comes to an outcome: in its turns it does certain items and shows nothing
else, and it ends after it has announced the outcome and told the callback the same. -/
def Concludes (it : Interpreter) (i : Nat) (callback : Option String) (schedule : Nat → Move)
    (m : Machine) (r : Outcome) : Prop :=
  ∃ items : Nat → List Item,
    (∀ n, schedule n = .turn i →
      it.Does callback (items n) (it.runs schedule m n) (it.runs schedule m (n + 1))) ∧
    (∀ n, schedule n ≠ .turn i → items n = []) ∧
    ∃ t, ∀ n, t ≤ n → Concluded i r (it.runs schedule m n) ∧
      Reported ((List.range n).flatMap items) (resultOf (.ok ()) r)

/-- A task that was started comes to what its document gives: the lines, or the first fault. -/
theorem Undisturbed.concludes (hit : it.Undisturbed i) {e : Encoding}
    (he : encodingNamed it.encoding = .ok e) (htask : m.tasks[i]? = some task)
    (hstage : task.stage = .scheduled) (hcancelled : task.cancelled = false)
    (hopens : it.Opens task.origin s) (hwaits : s.waits = none)
    (hyields : s.Yields it.chunkSize ps)
    (hothers : ∀ n, schedule n ≠ .turn i →
      (it.runs schedule m n).LeavesAlone i (it.runs schedule m (n + 1)))
    (hfair : Fair i schedule) :
    it.Concludes i task.callback schedule m
      (LineReader.program { strict := m.strict } (documentOf { encoding := e } ps)).1.lines := by
  -- until its first turn nothing changes for the task
  have hbefore : ∀ n, schedule n ≠ .turn i →
      (it.runs schedule m n).tasks[i]? = some task ∧ (it.runs schedule m n).strict = m.strict →
      (it.runs schedule m (n + 1)).tasks[i]? = some task ∧
        (it.runs schedule m (n + 1)).strict = m.strict := by
    rintro n hn ⟨hthere, hstrict⟩
    have hleft := hothers n hn
    exact ⟨hleft.task task hthere, (hleft.strict task hthere hstage).trans hstrict⟩
  obtain ⟨later, hlater⟩ := hfair 0
  obtain ⟨t, -, hturn, hthere, hstrict⟩ := next_turn (t := 0) hbefore ⟨htask, rfl⟩ later hlater
  have hunderway := hit.turn_first he hthere hstage hcancelled hopens hwaits hyields
  have hnext : it.runs schedule m (t + 1) = (it.runTask i).after (it.runs schedule m t) := by
    rw [runs, hturn, Move.act]
  rw [← hnext, hstrict] at hunderway
  obtain ⟨t', hend⟩ := hit.underway_ends hothers hfair ps (t + 1) hunderway
  have hmoves : ∀ n, schedule n ≠ .turn i →
      (it.runs schedule m n).KeepsTask i (it.runs schedule m (n + 1)) :=
    fun n hn => (hothers n hn).task.keepsTask
  obtain ⟨items, hdoes, hidle, haccount⟩ := runs_account (fun task m =>
    Machine.HoldsTask.keepsTask (hit.respects.holdsTask.moves_advance task m)) hmoves htask hstage
  refine ⟨items, hdoes, hidle, t', fun n hn => ?_⟩
  have hlater := runs_done hmoves hend n hn
  obtain ⟨task', htask', hfits⟩ := haccount n
  refine ⟨hlater, (hfits.closes hit.attentive _ ?_).reported⟩
  rw [htask'] at hlater
  exact Option.some.inj hlater

end Schedules

/-- A load can be started on a running event loop. -/
theorem schedule_returns (hintact : it.Intact) (hloop : it.hasLoop = true) (origin : Origin)
    (callback : Option String) (m : Machine) :
    ∃ m₁, it.schedule origin callback m = .ok () m₁ ∧ m₁.strict = m.strict ∧
      m₁.tasks[m.tasks.length]? = some { origin, callback } :=
  ⟨_, schedule_eq hintact hloop origin callback m, rfl, List.getElem?_concat_length⟩

end Interpreter

end Gcode
