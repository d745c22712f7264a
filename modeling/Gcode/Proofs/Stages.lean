import Gcode.Proofs.Following

/-!
A task follows the course of its load. What a task loads decides on where it stands before its first
turn; from then on every turn brings it ahead on the course, until the load is over and the task
announces how it ended, tells the callback and ends. Main statement: the turn of a task comes to
what the course says, and it touches no stream that another task reads (`advance_follows`).
-/

namespace Gcode

open Act

/-- How a task ends whose load is over and whose callback, if it was called, returned or failed. -/
def resultOf (told : Except Fault Unit) : Outcome → Except Fault (Option (List Line))
  | .ok ls => (told.mapError Fault.leaving).map fun _ => some ls
  | .error f =>
    if f.isLoad then (told.mapError Fault.leaving).map fun _ => none else .error f.leaving

/-- Where a load stands that is over before it has begun, and has seen nothing. -/
def Standing.unbegun (f : Fault) : Standing where
  phase := .ended (.error f)
  view := .ofStream (.ofText []) .null .null

namespace Interpreter

variable {it : Interpreter} {m m' m'' : Machine} {t i : Nat} {xs ys : List Item} {c : Standing}
  {v : View} {task : Task} {h : Handle}

/-! ### Calls at the end of a load -/

theorem calls_announceFault (callback : Option String) (hit : it.Considerate) (f : Fault)
    (m : Machine) : ∃ m', it.announceFault f m = .ok () m' ∧ it.Calls callback [.failed f] m m' := by
  obtain ⟨m', hannounce⟩ := hit.announceFault_returns f m
  have hout := (hit.conduct.moves_announceFault f).of_ok hannounce
  exact ⟨m', hannounce, calls_item (.failed f) (by rw [carry_failed, hannounce]) hout.1⟩

theorem calls_ended (callback : Option String) (hit : it.Considerate) (ls : List Line)
    (m : Machine) : ∃ m', it.succeeded ls m = .ok ls m' ∧ it.Calls callback [.ended ls] m m' := by
  obtain ⟨log, hlog⟩ : ∃ log, logLoaded ls.length m = .ok () { m with log } := ⟨_, rfl⟩
  obtain ⟨heard, m', hemit, hout, -⟩ := hit.emit_eq .ended [.results ls] { m with log }
  have hitem : it.Calls callback [.ended ls] { m with log } m' :=
    calls_item (.ended ls) (by rw [carry_ended]; exact bind_ok hemit _) hout
  refine ⟨m', ?_, (it.calls_log callback m log).append hitem⟩
  rw [succeeded, bind_ok hlog, bind_ok hemit]
  rfl

theorem calls_complete (hit : it.Considerate) (callback : Option String) (outcome : Outcome)
    (m : Machine) : ∃ told m', (it.complete callback outcome).attempt m = .ok told m' ∧
      it.Calls callback [.told outcome] m m' ∧ (it.Attentive → told = .ok ()) := by
  have hmoves : (it.complete callback outcome).Moves Machine.StaysOut := by
    cases callback with
    | none => exact Machine.StaysOut.refl
    | some id =>
      exact Machine.steady_staysOut.follows (fun m => Machine.staysOut_of_eq rfl rfl rfl rfl)
        fun _ => hit.told id outcome
  obtain ⟨told, hcomplete, htold⟩ := complete_after it callback outcome m
  rw [← carry_told callback] at hmoves
  exact ⟨told, _, hcomplete, ⟨.single (.told outcome) m, hmoves m⟩, htold⟩

/-- What a task announces and tells after a fault of loading. -/
theorem calls_closing (callback : Option String) (hit : it.Considerate) {f : Fault}
    (hf : f.isLoad = true) (m : Machine) :
    ∃ m₁ told m', it.announceFault f m = .ok () m₁ ∧
      (it.complete callback (.error f)).attempt m₁ = .ok told m' ∧
      it.Calls callback (closing (.error f)) m m' ∧ (it.Attentive → told = .ok ()) := by
  obtain ⟨m₁, hannounce, hcalls₁⟩ := calls_announceFault callback hit f m
  obtain ⟨told, m₂, hcomplete, hcalls₂, htold⟩ := calls_complete hit callback (.error f) m₁
  have hclosing : closing (.error f) = [.failed f, .told (.error f)] := if_pos hf
  refine ⟨m₁, told, m₂, hannounce, hcomplete, ?_, htold⟩
  rw [hclosing]
  exact hcalls₁.append hcalls₂

/-- A task that closes what it opened closes the stream that it read. -/
theorem frame_released (task : Task) (hv : m.Sees h t v) : m.Frame t (released task h m) := by
  rw [released]
  split
  · cases hv with
    | stream hs => exact .refl _ m
    | source hreads =>
      rw [Machine.closeHandle, Machine.closeSource, hreads.source]
      exact m.frame_updateStream _ _
  · exact .refl t m

theorem works_release (it : Interpreter) (callback : Option String) (task : Task)
    (hv : m.Sees h t v) : it.Works callback t [] m (released task h m) :=
  works_quietly (release_face task h m) (frame_released task hv)

/-! ### Turns of tasks -/

/-- What comes of a turn of a task: it waits for its next turn, or its load is over and it has
ended. -/
inductive Arrives (it : Interpreter) (task : Task) (t : Nat) (c : Standing) (m : Machine) :
    Stage → Machine → Prop
  | waiting {n : Nat} {load : Load} {m' : Machine} :
      load.phase.Shows m' t (c.ahead it.chunkSize n) →
        it.Works task.callback t (c.items it.chunkSize n) m m' →
          Arrives it task t c m (.reading load) m'
  | ended {n : Nat} {outcome : Outcome} {told : Except Fault Unit} {m' : Machine} :
      (c.ahead it.chunkSize n).phase = .ended outcome → (it.Attentive → told = .ok ()) →
        it.Does task.callback (c.items it.chunkSize n ++ closing outcome) m m' → m.Spares t m' →
          Arrives it task t c m (.done (resultOf told outcome)) m'

theorem runTurn_follows (hit : it.Considerate) (hv : m.Sees h t v) {turn : Act Turn}
    (hturn : it.Course task.callback t c m (turn m)) :
    ∃ stage m', it.runTurn task h turn m = .ok stage m' ∧ it.Arrives task t c m stage m' := by
  obtain ⟨n, p, m₁, hcomes, hshows, hworks⟩ := hturn
  obtain ⟨v₁, hv₁⟩ := hv.lasts hworks.frame.grows hworks.frame.sources
  generalize hr : turn m = r at hcomes
  cases hcomes with
  | waiting =>
    exact ⟨_, _, runTurn_waiting (announced_waiting hr), .waiting hshows hworks⟩
  | @finished ls =>
    obtain ⟨m₂, hended, hcalls₂⟩ := calls_ended task.callback hit ls m₁
    have hworks₂ := hcalls₂.works hv₁.lt_length
    obtain ⟨v₂, hv₂⟩ := hv₁.lasts hworks₂.frame.grows hworks₂.frame.sources
    have hworks₃ := works_release it task.callback task hv₂
    obtain ⟨told, m₄, hcomplete, hcalls₄, htold⟩ :=
      calls_complete hit task.callback (.ok ls) (released task h m₂)
    have hworks₄ := hcalls₄.works (Nat.lt_of_lt_of_le hv₂.lt_length hworks₃.frame.grows)
    have hall := hworks.append (hworks₂.append (hworks₃.append hworks₄))
    have hann : it.announced turn m = .ok (.finished ls) m₂ :=
      (announced_finished hr).trans (bind_ok hended _)
    refine ⟨.done (resultOf told (.ok ls)), m₄, ?_, .ended hshows.1 htold hall.does
      hall.frame.toSpares⟩
    rw [runTurn_finished hann hcomplete, stageAfter_eq, resultOf]
  | @failed f =>
    by_cases hf : f.isLoad = true
    · obtain ⟨m₂, told, m₃, hannounce, hcomplete, hcalls, htold⟩ :=
        calls_closing task.callback hit hf m₁
      have hworks₃ := hcalls.works hv₁.lt_length
      obtain ⟨v₃, hv₃⟩ := hv₁.lasts hworks₃.frame.grows hworks₃.frame.sources
      have hclosed := hworks₃.append (works_release it task.callback task hv₃)
      rw [List.append_nil] at hclosed
      have hall := hworks.append hclosed
      have hann : it.announced turn m = .error f m₂ := by
        rw [announced_error hr, failed_eq hannounce, if_pos hf]
      refine ⟨.done (resultOf told (.error f)), released task h m₃, ?_,
        .ended hshows.1 htold hall.does hall.frame.toSpares⟩
      rw [runTurn_failing hann hf hcomplete, stageAfter_eq, resultOf, if_pos hf]
    · have hall := hworks.append (works_release it task.callback task hv₁)
      have hann : it.announced turn m = .error f m₁ := by
        rw [announced_error hr, failed, if_neg hf]
        rfl
      have hpasses : f.isLoad = false := by simpa using hf
      have hclosing : closing (.error f) = [] := if_neg hf
      rw [← hclosing] at hall
      refine ⟨.done (resultOf (.ok ()) (.error f)), released task h m₁, ?_,
        .ended hshows.1 (fun _ => rfl) hall.does hall.frame.toSpares⟩
      rw [runTurn_passing hann hpasses, resultOf, if_neg hf]

/-! ### First turns -/

/-- What is seen of the source that a task opens for itself, if it can be opened. -/
def opens (it : Interpreter) : Origin → Except Fault View
  | .text .null => .ok (.ofStream (.ofText []) (.int 0) (.text "<string>"))
  | .text (.text s) => .ok (.ofStream (.ofText s.toList) (.int s.length) (.text "<string>"))
  | .text (.bytes b) | .text (.byteArray b) =>
    .ok (.ofStream (.ofBytes b) (.int b.length) (.text "<bytes>"))
  | .text x => .error (.notText x.typeName)
  | .file path => do
    let p ← Path.ofLiteral path
    let b ← it.disk.openPath p (.cannotOpen p.label p.shown)
    pure (.ofStream (.ofFile b) (.int b.length) (.text p.label))
  | .stream _ => .error .noSource

/-- A new stream with a source of its own. -/
theorem addStreamSource_sees (it : Interpreter) (callback : Option String) (s : Stream)
    (total name : Literal) (m : Machine) :
    ∃ i m', addStreamSource s total name m = .ok i m' ∧
      m'.Sees (.source i) m.streams.length (.ofStream s total name) ∧
      it.Works callback m.streams.length [] m m' := by
  have hs : (m.addStream s).streams[m.streams.length]? = some s := List.getElem?_concat_length
  refine ⟨_, _, wrapStream_eq hs total name, sees_addSource hs total name, ?_⟩
  exact works_quietly rfl ((m.frame_addStream s _).trans (Machine.frame_addSource _ rfl _ _))

/-- A text or bytes make a stream, or they are refused. -/
theorem openText_cases (it : Interpreter) (x : Literal) :
    (∃ s total name, it.opens (.text x) = .ok (.ofStream s total name) ∧
      openText x = addStreamSource s total name) ∨
    ∃ f, it.opens (.text x) = .error f ∧ openText x = throw f := by
  cases x with
  | null | text _ | bytes _ | byteArray _ => exact .inl ⟨_, _, _, rfl, rfl⟩
  | _ => exact .inr ⟨_, rfl, rfl⟩

/-- A file makes a stream, or it cannot be opened. -/
theorem openFile_cases (it : Interpreter) (path : Literal) (m : Machine) :
    (∃ s total name log, it.opens (.file path) = .ok (.ofStream s total name) ∧
      it.openFile path m = addStreamSource s total name { m with log }) ∨
    ∃ f, it.opens (.file path) = .error f ∧ it.openFile path m = .error f m := by
  cases hpath : Path.ofLiteral path with
  | error f =>
    refine .inr ⟨f, ?_, ?_⟩
    · rw [opens, hpath]
      rfl
    · rw [openFile, hpath]
      rfl
  | ok p =>
    have hopens : it.opens (.file path) = it.disk.openPath p (.cannotOpen p.label p.shown) >>=
        fun b => pure (.ofStream (.ofFile b) (.int b.length) (.text p.label)) := by
      rw [opens, hpath]
      rfl
    have hgiven : Act.ofExcept (Path.ofLiteral path) m = .ok p m := by
      rw [hpath]
      rfl
    rw [hopens, openFile, bind_ok hgiven]
    cases it.disk.openPath p (.cannotOpen p.label p.shown) with
    | error f => exact .inr ⟨f, rfl, rfl⟩
    | ok b => exact .inl ⟨.ofFile b, .int b.length, .text p.label, _, rfl, rfl⟩

/-- A task opens its source, or there is nothing to open. -/
theorem openOrigin_sees (callback : Option String) {origin : Origin} (horigin : origin.owned = true)
    (m : Machine) :
    (∃ v i m', it.opens origin = .ok v ∧ it.openOrigin origin m = .ok (.source i) m' ∧
      m'.Sees (.source i) m.streams.length v ∧ it.Works callback m.streams.length [] m m') ∨
    ∃ f, it.opens origin = .error f ∧ it.openOrigin origin m = .error f m := by
  cases origin with
  | stream h => cases horigin
  | text x =>
    rcases it.openText_cases x with ⟨s, total, name, hopens, hopen⟩ | ⟨f, hopens, hopen⟩
    · obtain ⟨i, m', hadd, hsees, hworks⟩ := it.addStreamSource_sees callback s total name m
      refine .inl ⟨_, i, m', hopens, ?_, hsees, hworks⟩
      rw [openOrigin, hopen, bind_ok hadd]
      rfl
    · refine .inr ⟨f, hopens, ?_⟩
      rw [openOrigin, hopen]
      rfl
  | file path =>
    rcases it.openFile_cases path m with ⟨s, total, name, log, hopens, hopen⟩ | ⟨f, hopens, hopen⟩
    · obtain ⟨i, m', hadd, hsees, hworks⟩ :=
        it.addStreamSource_sees callback s total name { m with log }
      refine .inl ⟨_, i, m', hopens, ?_, hsees, ?_⟩
      · rw [openOrigin, bind_ok (hopen.trans hadd)]
        rfl
      · have hlog : it.Works callback m.streams.length [] m { m with log } :=
          works_quietly rfl ((m.staysOut_log log).toLeavesLoads.frame rfl _)
        exact hlog.append hworks
    · exact .inr ⟨f, hopens, bind_error hopen _⟩

/-! ### Turns of tasks, from where they stand -/

/-- Where a task stands that has not ended. What it loads decides on that before its first turn, and
how far its load has come afterwards. -/
inductive Stands (it : Interpreter) (m : Machine) (task : Task) : Standing → Prop
  | given {h : Handle} {t : Nat} {v : View} : task.stage = .scheduled → task.origin = .stream h →
      m.Sees h t v → Stands it m task (it.outset m.strict v)
  | opened {v : View} : task.stage = .scheduled → task.origin.owned = true →
      it.opens task.origin = .ok v → Stands it m task (it.outset m.strict v)
  | refused {h : Handle} {f : Fault} : task.stage = .scheduled → task.origin = .stream h →
      h.refusal? = some f → Stands it m task (.unbegun f)
  | unopened {f : Fault} : task.stage = .scheduled → task.origin.owned = true →
      it.opens task.origin = .error f → Stands it m task (.unbegun f)
  | reading {load : Load} {t : Nat} {c : Standing} : task.stage = .reading load →
      load.phase.Shows m t c → Stands it m task c

theorem Arrives.before {stage : Stage} (hworks : it.Works task.callback t [] m m')
    (h : it.Arrives task t c m' stage m'') : it.Arrives task t c m stage m'' := by
  cases h with
  | waiting hshows hworks' => exact .waiting hshows (hworks.append hworks')
  | ended hphase htold hdoes hspares =>
    exact .ended hphase htold (hworks.does.append hdoes) (hworks.frame.toSpares.trans hspares)

/-- A task that cannot open its source ends with that. -/
theorem startTask_unopened (hit : it.Considerate) {f : Fault}
    (hopen : it.openOrigin task.origin m = .error f m) :
    ∃ told m', it.startTask task m = .ok (.done (resultOf told (.error f))) m' ∧
      it.Calls task.callback (closing (.error f)) m m' ∧ (it.Attentive → told = .ok ()) := by
  by_cases hf : f.isLoad = true
  · obtain ⟨m₁, told, m₂, hannounce, hcomplete, hcalls, htold⟩ :=
      calls_closing task.callback hit hf m
    have hreport : attempt (it.announceFault f >>= fun _ => it.complete task.callback (.error f)) m =
        .ok told m₂ := (attempt_congr (bind_ok hannounce _)).trans hcomplete
    refine ⟨told, m₂, ?_, hcalls, htold⟩
    rw [startTask_failing hopen hf hreport, stageAfter_eq, resultOf, if_pos hf]
  · have hpasses : f.isLoad = false := by simpa using hf
    have hclosing : closing (.error f) = [] := if_neg hf
    refine ⟨.ok (), m, ?_, ?_, fun _ => rfl⟩
    · rw [startTask_passing hopen hpasses, resultOf, if_neg hf]
    · rw [hclosing]
      exact ⟨.idle rfl, .refl m⟩

/-- A task that is given nothing to read ends with that. -/
theorem startTask_refused (hit : it.Considerate) {h : Handle} (horigin : task.origin = .stream h)
    {f : Fault} (hrefused : h.refusal? = some f) :
    ∃ told m', it.startTask task m = .ok (.done (resultOf told (.error f))) m' ∧
      it.Calls task.callback (closing (.error f)) m m' ∧ (it.Attentive → told = .ok ()) := by
  have hbegin : it.begin h .null m = .error f m := by
    rw [begin_eq, prepare, hit.intact.call_eq, hit.intact.call_eq]
    cases h with
    | missing | unreadable type =>
      cases hrefused
      rfl
    | stream k | source k => cases hrefused
  have hf : f.isLoad = true := by
    cases h with
    | missing | unreadable type =>
      cases hrefused
      rfl
    | stream k | source k => cases hrefused
  have hopen : it.openOrigin task.origin m = .ok h m := by
    rw [horigin]
    rfl
  obtain ⟨m₁, told, m₂, hannounce, hcomplete, hcalls, htold⟩ :=
    calls_closing task.callback hit hf m
  have hann : it.announced (it.begin h .null) m = .error f m₁ := by
    rw [announced_error hbegin, failed_eq hannounce, if_pos hf]
  have hreleased : released task h m₂ = m₂ := by
    rw [released, horigin]
    rfl
  refine ⟨told, m₂, ?_, hcalls, htold⟩
  rw [startTask_opened hopen, runTurn_failing hann hf hcomplete, hreleased, stageAfter_eq, resultOf,
    if_pos hf]

/-- The turn of a task that was not cancelled comes to what the course of its load says, and no
other task reads the stream on which it works. -/
theorem advance_follows (hit : it.Considerate) (hm : m.Orderly) (htask : m.tasks[i]? = some task)
    (hcancelled : task.cancelled = false) (h : it.Stands m task c) :
    ∃ t stage m', it.advance task m = .ok stage m' ∧ (∀ j, m.Uses j t → j = i) ∧
      it.Arrives task t c m stage m' := by
  have hnew : ∀ j, m.Uses j m.streams.length → j = i :=
    fun j hj => absurd hj.lt_length (Nat.lt_irrefl _)
  -- a load that is over before it has begun
  have hover : ∀ {f}, task.stage = .scheduled →
      (∃ told m', it.startTask task m = .ok (.done (resultOf told (.error f))) m' ∧
        it.Calls task.callback (closing (.error f)) m m' ∧ (it.Attentive → told = .ok ())) →
      ∃ t stage m', it.advance task m = .ok stage m' ∧ (∀ j, m.Uses j t → j = i) ∧
        it.Arrives task t (.unbegun f) m stage m' := by
    rintro f hstage ⟨told, m', hstart, hcalls, htold⟩
    refine ⟨m.streams.length, _, m', ?_, hnew,
      .ended (n := 0) rfl htold hcalls.does (hcalls.out.toLeavesLoads.spares _)⟩
    rw [advance_scheduled hstage hcancelled, hstart]
  cases h with
  | @given h t v hstage horigin hv =>
    have hopen : it.openOrigin task.origin m = .ok h m := by
      rw [horigin]
      rfl
    have huses : m.Uses i t :=
      ⟨task, h, v, htask, Task.handle?_given hstage horigin hv.refusal?_eq, hv⟩
    obtain ⟨stage, m', hrun, harrives⟩ :=
      runTurn_follows hit hv (begin_follows task.callback hit hm hv)
    refine ⟨t, stage, m', ?_, fun j hj => hm.apart j i t hj huses, harrives⟩
    rw [(Due.first hstage hcancelled hopen).advance_eq, hrun]
  | @opened v hstage howned hopens =>
    rcases it.openOrigin_sees task.callback howned m with
      ⟨v', k, m₁, hopens', hopen, hv, hworks⟩ | ⟨f, hopens', -⟩
    · cases hopens.symm.trans hopens'
      have hbegin := begin_follows task.callback hit (hworks.frame.orderly hm) hv
      rw [hworks.frame.strict] at hbegin
      obtain ⟨stage, m', hrun, harrives⟩ := runTurn_follows hit hv hbegin
      refine ⟨m.streams.length, stage, m', ?_, hnew, harrives.before hworks⟩
      rw [(Due.first hstage hcancelled hopen).advance_eq, hrun]
    · cases hopens.symm.trans hopens'
  | @unopened f hstage howned hopens =>
    rcases it.openOrigin_sees task.callback howned m with
      ⟨_, _, _, hopens', -⟩ | ⟨f', hopens', hopen⟩
    · cases hopens.symm.trans hopens'
    · cases hopens.symm.trans hopens'
      exact hover hstage (startTask_unopened hit hopen)
  | refused hstage horigin hrefused => exact hover hstage (startTask_refused hit horigin hrefused)
  | @reading load t _ hstage hshows =>
    have hv := (Load.shows_iff.1 hshows).2
    have huses : m.Uses i t :=
      ⟨task, .source load.source, c.view, htask, Task.handle?_reading hstage, hv⟩
    obtain ⟨stage, m', hrun, harrives⟩ :=
      runTurn_follows hit hv (resume_follows task.callback hit hm hshows)
    refine ⟨t, stage, m', ?_, fun j hj => hm.apart j i t hj huses, harrives⟩
    rw [(Due.later hstage hcancelled).advance_eq, hrun]

end Interpreter

end Gcode
