import Gcode.Proofs.Leaving

/-!
Loads that take turns. By its own turns a task follows the course of its load, and whatever else
happens leaves it where it stands on that course. Main statement: whatever the order of turns, a
load does for others what it does alone, and it ends in the same way; what it does with a chunk it
does in one turn, the lines resolved from the modal command that there is then, which decides on
nothing but the codes of the groups in front of the first command word (`loads_interleave`).
-/

namespace Gcode

open Act

namespace Interpreter

variable {it : Interpreter} {m m' : Machine} {i : Nat} {c : Standing} {task : Task}
  {callback : Option String} {xs : List Item} {bs : List Bout} {v : View}

/-! ### Items without a break -/

/-- An account in which lines are carried out in one go: as the deeds that they resolve to from the
modal command that there is before the first of them. In between nothing is seen to happen. -/
inductive Plays (it : Interpreter) (callback : Option String) :
    List Item → Machine → Machine → Prop
  | idle {m m' : Machine} : m'.face = m.face → Plays it callback [] m m'
  | lines {ls : List Line} {xs : List Item} {m m₁ m₂ m' : Machine} : m₁.face = m.face →
      it.carryOutAll (deedsOf m₁.modal (ls.map .line)) m₁ = .ok () m₂ →
        Plays it callback xs m₂ m' → Plays it callback (.lines ls :: xs) m m'
  | call {x : Item} {xs : List Item} {m m₁ m' : Machine} : (∀ ls, x ≠ .lines ls) →
      m₁.face = m.face → Plays it callback xs ((x.carry it callback).after m₁) m' →
        Plays it callback (x :: xs) m m'

/-- If host code leaves the modal command alone, lines are carried out in one go. -/
theorem Does.plays (hit : it.Considerate) (h : it.Does callback xs m m') :
    it.Plays callback xs m m' := by
  induction h with
  | idle hface => exact .idle hface
  | @item x _ _ m₁ _ hface _ ih =>
    cases x with
    | lines ls =>
      obtain ⟨m₂, hdeliver, hcalls, -⟩ := deliver_calls hit ls m₁
      rw [after, Item.carry, hdeliver] at ih
      exact .lines hface hcalls ih
    | _ => exact .call (fun _ => Item.noConfusion) hface ih

/-! ### What there is to load -/

/-- What there is to read for a task before its first turn: the stream that it was given, or the one
that it will open. -/
inductive Supplies (it : Interpreter) (m : Machine) (task : Task) : View → Prop
  | given {h : Handle} {t : Nat} {v : View} : task.origin = .stream h → m.Sees h t v →
      Supplies it m task v
  | opened {v : View} : task.origin.owned = true → it.opens task.origin = .ok v →
      Supplies it m task v

/-- The bouts of a whole load: those of the stream that there is to read, or nothing but its end if
there is none or the encoding is not known. -/
inductive Loads (it : Interpreter) (m : Machine) (task : Task) : List Bout → Prop
  | reads {v : View} {e : Text.Encoding} {bs : List Bout} : it.Supplies m task v →
      encodingNamed it.encoding = .ok e →
        Follows it.chunkSize v.total v.stream v.consumed { strict := m.strict } { encoding := e }
          bs → Loads it m task bs
  | fails {f : Fault} : (∀ v e, it.Supplies m task v → encodingNamed it.encoding ≠ .ok e) →
      Loads it m task [.close (.error f)]

/-- A load that is over before it has begun does nothing. -/
theorem over_outset {size : Int} {n : Nat} {f : Fault} {outcome : Outcome}
    (hphase : c.phase = .ended (.error f)) (hover : (c.ahead size n).phase = .ended outcome) :
    outcome = .error f ∧ c.bouts size n = [] := by
  obtain ⟨hahead, hbouts⟩ := Standing.over_ahead hphase n
  rw [hahead, hphase] at hover
  cases hover
  exact ⟨rfl, hbouts⟩

/-- A load before its first read has the bouts of the stream that it sees. -/
theorem loads_outset (hv : it.Supplies m task v) {n : Nat} {outcome : Outcome}
    (hover : ((it.outset m.strict v).ahead it.chunkSize n).phase = .ended outcome) :
    it.Loads m task ((it.outset m.strict v).bouts it.chunkSize n ++ [.close outcome]) := by
  rw [outset] at hover ⊢
  cases he : encodingNamed it.encoding with
  | ok e => exact .reads hv he (Standing.follows_bouts _ (firstLoad 0 m.strict e) v n outcome)
  | error f =>
    rw [he] at hover
    obtain ⟨rfl, hbouts⟩ := over_outset (c := ⟨.ended (.error f), v⟩) rfl hover
    rw [hbouts]
    exact .fails fun _ _ _ h => by cases he.symm.trans h

/-- A load from where it stands before its first turn. -/
theorem loads_stands (hstands : it.Stands m task c) (hstage : task.stage = .scheduled) {n : Nat}
    {outcome : Outcome} (hover : (c.ahead it.chunkSize n).phase = .ended outcome) :
    it.Loads m task (c.bouts it.chunkSize n ++ [.close outcome]) := by
  -- a load that is over before it has begun
  have hunbegun : ∀ {f}, c = .unbegun f → (∀ v, ¬ it.Supplies m task v) →
      it.Loads m task (c.bouts it.chunkSize n ++ [.close outcome]) := by
    rintro f rfl hnone
    obtain ⟨rfl, hbouts⟩ := over_outset rfl hover
    rw [hbouts]
    exact .fails fun v _ hv => absurd hv (hnone v)
  cases hstands with
  | given _ horigin hv => exact loads_outset (.given horigin hv) hover
  | opened _ howned hopens => exact loads_outset (.opened howned hopens) hover
  | refused _ horigin hrefused =>
    refine hunbegun rfl fun v hv => ?_
    cases hv with
    | given horigin' hsees =>
      cases horigin.symm.trans horigin'
      cases hrefused.symm.trans hsees.refusal?_eq
    | opened howned =>
      rw [horigin] at howned
      cases howned
  | unopened _ howned hopens =>
    refine hunbegun rfl fun v hv => ?_
    cases hv with
    | given horigin =>
      rw [horigin] at howned
      cases howned
    | opened _ hopens' => cases hopens.symm.trans hopens'
  | reading hreading => cases hstage.symm.trans hreading

/-! ### Tasks that go their course -/

/-- How a task has gone whose load has a course: it stands somewhere on the course, having done what
comes before, or the load is over and the task has ended. -/
inductive Goes (it : Interpreter) (i : Nat) (callback : Option String) (c : Standing) :
    List Bout → Machine → Prop
  | stands {n : Nat} {task : Task} {m : Machine} : m.tasks[i]? = some task →
      task.callback = callback → task.cancelled = false →
        it.Stands m task (c.ahead it.chunkSize n) → Goes it i callback c (c.bouts it.chunkSize n) m
  | ends {n : Nat} {outcome : Outcome} {told : Except Fault Unit} {m : Machine} :
      m.tasks[i]?.map Task.stage = some (.done (resultOf told outcome)) →
        (it.Attentive → told = .ok ()) → (c.ahead it.chunkSize n).phase = .ended outcome →
          Goes it i callback c (c.bouts it.chunkSize n ++ [.close outcome]) m

/-- By its own turn a task goes on, and no bout is left half done. -/
theorem turn_goes (hit : it.Considerate) (hm : m.Orderly) (h : it.Goes i callback c bs m) :
    ∃ cs : List Bout, it.Does callback (cs.flatMap Bout.items) m ((it.runTask i).after m) ∧
      it.Goes i callback c (bs ++ cs) ((it.runTask i).after m) := by
  cases h with
  | @ends n outcome told _ hdone htold hover =>
    obtain ⟨task, htask, hstage⟩ := Option.map_eq_some_iff.1 hdone
    have hidle : (it.runTask i).after m = m := by
      rw [after, runTask_done htask hstage]
    rw [hidle]
    refine ⟨[], .idle rfl, ?_⟩
    rw [List.append_nil]
    exact .ends hdone htold hover
  | @stands n task _ htask hcallback hcancelled hstands =>
    obtain ⟨t, stage, m', hadvance, hothers, harrives⟩ :=
      advance_follows hit hm htask hcancelled hstands
    have hspares := harrives.spares
    have hentered : (m'.enterStage i stage).tasks[i]? = some { task with stage } :=
      enterStage_task (getElem?_grown hspares.tasks htask) stage
    have hafter : (it.runTask i).after m = m'.enterStage i stage := by
      rw [after, runTask_eq htask hadvance]
    rw [hafter]
    cases harrives with
    | @waiting k load _ hshows hworks =>
      refine ⟨_, (hcallback ▸ hworks.does).until (enterStage_face m' i _), ?_⟩
      have hshows' : load.phase.Shows (m'.enterStage i (.reading load)) t
          ((c.ahead it.chunkSize n).ahead it.chunkSize k) :=
        Load.shows_iff.2 ⟨hshows.1, Machine.enterStage_sees.2 (Load.shows_iff.1 hshows).2⟩
      rw [← Standing.ahead_add] at hshows'
      rw [← Standing.bouts_add]
      exact .stands hentered hcallback hcancelled (.reading rfl hshows')
    | @ended k outcome told _ hover htold hdoes _ =>
      refine ⟨(c.ahead it.chunkSize n).bouts it.chunkSize k ++ [.close outcome], ?_, ?_⟩
      · rw [List.flatMap_append, List.flatMap_singleton]
        exact (hcallback ▸ hdoes).until (enterStage_face m' i _)
      rw [← List.append_assoc, ← Standing.bouts_add]
      refine .ends (by rw [hentered]; rfl) htold ?_
      rw [Standing.ahead_add]
      exact hover

/-- What others do leaves a task where it is on its course. -/
theorem leaves_goes (hleaves : it.LeavesTask i m m') (h : it.Goes i callback c bs m) :
    it.Goes i callback c bs m' := by
  cases h with
  | ends hdone htold hover =>
    obtain ⟨task, htask, hstage⟩ := Option.map_eq_some_iff.1 hdone
    refine .ends ?_ htold hover
    rw [(hleaves task htask).1]
    exact congrArg some hstage
  | stands htask hcallback hcancelled hstands =>
    obtain ⟨htask', hstands'⟩ := hleaves _ htask
    exact .stands htask' hcallback hcancelled (hstands' _ hstands)

/-- A task that was started has its whole course before it. -/
theorem goes_scheduled (it : Interpreter) (hm : m.Orderly) (htask : m.tasks[i]? = some task)
    (hstage : task.stage = .scheduled) (hcancelled : task.cancelled = false) :
    ∃ c, it.Stands m task c ∧ it.Goes i task.callback c [] m := by
  obtain ⟨c, hstands⟩ := it.stands_somewhere hm htask (by rw [hstage]; rfl)
  exact ⟨c, hstands, .stands (n := 0) htask rfl hcancelled hstands⟩

/-- A task that has ended has gone its whole course. -/
theorem Goes.ended {r : Except Fault (Option (List Line))} (h : it.Goes i callback c bs m)
    (hdone : m.tasks[i]?.map Task.stage = some (.done r)) :
    ∃ n outcome, (c.ahead it.chunkSize n).phase = .ended outcome ∧
      (it.Attentive → r = resultOf (.ok ()) outcome) ∧
      bs = c.bouts it.chunkSize n ++ [.close outcome] := by
  cases h with
  | @ends n outcome told _ hout htold hover =>
    rw [hout] at hdone
    cases hdone
    exact ⟨n, outcome, hover, fun hattentive => by rw [htold hattentive], rfl⟩
  | @stands n task _ htask _ _ hstands =>
    rw [htask] at hdone
    have hstage : task.stage = .done r := Option.some.inj hdone
    have hgoing := stands_isDone hstands
    rw [hstage] at hgoing
    cases hgoing

/-- What a task has done is the beginning of what it has done when its load is over. -/
theorem Goes.begins {n : Nat} {outcome : Outcome} (h : it.Goes i callback c bs m)
    (hover : (c.ahead it.chunkSize n).phase = .ended outcome) :
    bs <+: c.bouts it.chunkSize n ++ [.close outcome] := by
  cases h with
  | stands => exact (Standing.bouts_begin hover _).trans (List.prefix_append _ _)
  | ends _ _ hover' =>
    obtain ⟨hbouts, rfl⟩ := Standing.over_unique hover hover'
    exact hbouts ▸ List.prefix_rfl

end Interpreter

/-! ### Schedules -/

namespace Interpreter

/-- What a task has done by some time: in each of its own turns it does certain bouts from beginning
to end, and nothing else that others see. -/
inductive Account (it : Interpreter) (i : Nat) (callback : Option String) (schedule : Nat → Move)
    (m : Machine) : Nat → List Bout → Prop
  | start : Account it i callback schedule m 0 []
  | turn {n : Nat} {bs cs : List Bout} : Account it i callback schedule m n bs →
      schedule n = .turn i →
        it.Plays callback (cs.flatMap Bout.items) (it.runs schedule m n)
          (it.runs schedule m (n + 1)) →
            Account it i callback schedule m (n + 1) (bs ++ cs)
  | other {n : Nat} {bs : List Bout} : Account it i callback schedule m n bs →
      schedule n ≠ .turn i → Account it i callback schedule m (n + 1) bs

/-- A task has ended with a result by some time. -/
def EndsWith (it : Interpreter) (i : Nat) (schedule : Nat → Move) (m : Machine) (n : Nat)
    (r : Except Fault (Option (List Line))) : Prop :=
  (it.runs schedule m n).tasks[i]?.map Task.stage = some (.done r)

end Interpreter

/-- A machine on which nothing but a task was started. -/
def Machine.alone (m : Machine) (task : Task) : Machine :=
  { m with tasks := [task], current := some 0, queue := [0] }

namespace Interpreter

variable {it : Interpreter} {m : Machine} {i : Nat} {c : Standing} {task : Task}
  {callback : Option String} {schedule : Nat → Move}

theorem Considerate.respects (hit : it.Considerate) {R : Machine → Machine → Prop}
    (h : ∀ m m' : Machine, m.LeavesLoads m' → R m m') : it.Respects R where
  handler id args := (hit.conduct.handler id args).mono fun m m' hm => h m m' hm.1.toLeavesLoads
  method mt args := (hit.conduct.method mt args).mono fun m m' hm => h m m' hm.1.toLeavesLoads
  listener id payload :=
    (hit.conduct.listener id payload).mono fun m m' hm => h m m' hm.1.toLeavesLoads
  callback id outcome := (hit.told id outcome).mono fun m m' hm => h m m' hm.toLeavesLoads
  answer code name op hop args :=
    (hit.conduct.answer code name op hop args).mono fun m m' hm => h m m' hm.1.toLeavesLoads

theorem leavesLoads_keepsTasks (m m' : Machine) (h : m.LeavesLoads m') : m.KeepsTasks m' :=
  fun _ task htask => ⟨task.cancelled, getElem?_grown h.tasks htask⟩

theorem leavesLoads_drains (m m' : Machine) (h : m.LeavesLoads m') : m.Drains m' where
  source _ src hsrc := ⟨src, getElem?_grown h.sources hsrc, rfl⟩
  stream _ s hs := ⟨s, getElem?_grown h.streams hs, Nat.le_refl _⟩

theorem alone_orderly (hm : m.Orderly) (htask : m.tasks[i]? = some task) :
    (m.alone task).Orderly where
  inner := hm.inner
  there j task' h htask' hhandle := by
    obtain ⟨rfl, rfl⟩ : j = 0 ∧ task' = task := by
      simpa [Machine.alone, List.getElem?_singleton, eq_comm] using htask'
    obtain ⟨t, v, hv⟩ := hm.there i task' h htask hhandle
    exact ⟨t, v, .of_eq (m := m) rfl rfl hv⟩
  apart j k t hj hk := by
    have hfirst : ∀ {j}, (m.alone task).Uses j t → j = 0 := by
      rintro j ⟨task', h, v, htask', -, -⟩
      have hlt := (List.getElem?_eq_some_iff.1 htask').1
      exact Nat.lt_one_iff.1 hlt
    rw [hfirst hj, hfirst hk]

theorem runs_orderly (hit : it.Considerate) (hm : m.Orderly)
    (hschedule : ∀ n, (schedule n).Gentle Machine.LeavesLoads) :
    ∀ n, (it.runs schedule m n).Orderly
  | 0 => hm
  | n + 1 => move_orderly hit (runs_orderly hit hm hschedule n) (hschedule n)

/-- At any time a task has gone so far on its course, whatever happened in between. The induction is
on the moves; a move that is not a turn of the task leaves it where it is. -/
theorem runs_goes (hit : it.Considerate) (hm : m.Orderly)
    (hschedule : ∀ n, (schedule n).Gentle Machine.LeavesLoads)
    (hstart : it.Goes i callback c [] m) (n : Nat) :
    ∃ bs, it.Account i callback schedule m n bs ∧
      it.Goes i callback c bs (it.runs schedule m n) := by
  induction n with
  | zero => exact ⟨[], .start, hstart⟩
  | succ n ih =>
    obtain ⟨bs, haccount, hgoes⟩ := ih
    have horderly := runs_orderly hit hm hschedule n
    by_cases hturn : schedule n = .turn i
    · have hnext : it.runs schedule m (n + 1) = (it.runTask i).after (it.runs schedule m n) := by
        rw [runs, hturn, Move.act]
      obtain ⟨cs, hdoes, hgoes'⟩ := turn_goes hit horderly hgoes
      rw [← hnext] at hdoes hgoes'
      exact ⟨bs ++ cs, haccount.turn hturn (hdoes.plays hit), hgoes'⟩
    · exact ⟨bs, haccount.other hturn,
        leaves_goes (move_leaves hit horderly (hschedule n) hturn) hgoes⟩

theorem scheduled_endsWith (hit : it.Considerate)
    (hschedule : ∀ n, (schedule n).Gentle Machine.LeavesLoads) (hfair : Fair i schedule)
    (htask : m.tasks[i]? = some task) (hstage : task.stage = .scheduled) :
    ∃ n r, it.EndsWith i schedule m n r := by
  obtain ⟨n, task', htask', hdone⟩ := scheduled_ends (hit.respects leavesLoads_keepsTasks)
    (hit.respects leavesLoads_drains) (fun n => (hschedule n).mono leavesLoads_keepsTasks)
    (fun n => (hschedule n).mono leavesLoads_drains) hfair htask hstage
  obtain ⟨r, hr⟩ := Stage.eq_done hdone
  refine ⟨n, r, ?_⟩
  rw [EndsWith, htask', ← hr]
  rfl

end Interpreter

/-- Loads are started on one interpreter, no two of them from the same source, and their turns come
in any order, mixed with whatever else stays out of the loads. Then each load does for others what
it does if nothing else was started, in the same order; it does end if it has turns again and again,
and if callbacks return it ends with the same result. What it does comes in bouts, one for each
piece that a read of its source gives: the lines that the piece completes are announced and carried
out in one turn and without a break, as they resolve from the modal command that there is before the
first of them; and that command decides on nothing but the codes of the groups in front of the first
command word. The loads stay apart, so the same holds of loads that are started meanwhile. -/
theorem loads_interleave (it : Interpreter) (hit : it.Considerate) (m : Machine) (hm : m.Orderly)
    (schedule : Nat → Move) (hschedule : ∀ n, (schedule n).Gentle Machine.LeavesLoads) :
    (∀ (i : Nat) (task : Task), m.tasks[i]? = some task → task.stage = .scheduled →
      task.cancelled = false → ∃ k solo r,
        it.Account 0 task.callback (fun _ => .turn 0) (m.alone task) k solo ∧
        it.EndsWith 0 (fun _ => .turn 0) (m.alone task) k r ∧ it.Loads m task solo ∧
        (∀ n, ∃ bs, it.Account i task.callback schedule m n bs ∧ bs <+: solo ∧
          ∀ r', it.EndsWith i schedule m n r' → bs = solo ∧ (it.Attentive → r' = r)) ∧
        (Interpreter.Fair i schedule → ∃ n r', it.EndsWith i schedule m n r')) ∧
    (∀ n, (it.runs schedule m n).Orderly) ∧
    ∀ ls : List Line, ∃ front rest : List Deed,
      (∀ modal, deedsOf modal (ls.map .line) = front.map (Deed.under modal) ++ rest) ∧
        (front.filterMap Deed.command?).length =
          ((groupsOf ls).takeWhile Group.isOpen).length := by
  refine ⟨fun i task htask hstage hcancelled => ?_, Interpreter.runs_orderly hit hm hschedule,
    deedsOf_front⟩
  obtain ⟨c, hstands, hstart⟩ := it.goes_scheduled hm htask hstage hcancelled
  -- alone the load has the same course, and comes to its end
  have halone := Interpreter.alone_orderly hm htask
  have hsolo : it.Goes 0 task.callback c [] (m.alone task) :=
    .stands (n := 0) rfl rfl hcancelled
      (Interpreter.stands_of_sees (m := m) rfl (fun _ hv => .of_eq (m := m) rfl rfl hv) hstands)
  have hturns : ∀ n : Nat, ((fun _ => Move.turn 0) n).Gentle Machine.LeavesLoads :=
    fun _ => trivial
  obtain ⟨k, r, hends⟩ := Interpreter.scheduled_endsWith (i := 0) hit hturns
    (fun n => ⟨0, rfl⟩) (m := m.alone task) rfl hstage
  obtain ⟨solo, haccount, hgoes⟩ := Interpreter.runs_goes hit halone hturns hsolo k
  obtain ⟨last, outcome, hover, hresult, rfl⟩ := hgoes.ended hends
  refine ⟨k, _, r, haccount, hends, Interpreter.loads_stands hstands hstage hover, fun n => ?_,
    fun hfair => Interpreter.scheduled_endsWith hit hschedule hfair htask hstage⟩
  obtain ⟨bs, haccount, hgoes⟩ := Interpreter.runs_goes hit hm hschedule hstart n
  refine ⟨bs, haccount, hgoes.begins hover, fun r' hr' => ?_⟩
  obtain ⟨n', outcome', hover', hresult', rfl⟩ := hgoes.ended hr'
  obtain ⟨hbouts, rfl⟩ := Standing.over_unique hover' hover
  exact ⟨by rw [hbouts], fun hattentive => by rw [hresult hattentive, hresult' hattentive]⟩

/-! ### Two loads -/

/-- Two loads of texts that are to run at the same time. There is a handler for one code. -/
def twoLoads (first second : String) : Machine where
  handlers := Table.ofList [("G1", .callable "move")]
  streams := [.ofText first.toList, .ofText second.toList]
  tasks := [
    { origin := .stream (.stream 0), callback := none },
    { origin := .stream (.stream 1), callback := none }]
  current := some 1
  queue := [0, 1]

theorem twoLoads_orderly (first second : String) : (twoLoads first second).Orderly := by
  -- a task reads the stream of its own number
  have hreads : ∀ {i task h}, (twoLoads first second).tasks[i]? = some task →
      task.handle? = some h → h = .stream i ∧ i < 2 := by
    intro i task h htask hhandle
    match i with
    | 0 | 1 =>
      cases htask
      cases hhandle
      exact ⟨rfl, by omega⟩
    | i + 2 => cases htask
  have huses : ∀ {i t}, (twoLoads first second).Uses i t → t = i := by
    rintro i t ⟨task, h, v, htask, hhandle, hv⟩
    obtain ⟨rfl, -⟩ := hreads htask hhandle
    cases hv
    rfl
  refine ⟨fun i src hsrc => ?_, fun i task h htask hhandle => ?_, fun i j t hi hj => ?_⟩
  · cases hsrc
  · obtain ⟨rfl, hlt⟩ := hreads htask hhandle
    exact ⟨i, _, .stream (List.getElem?_eq_getElem hlt)⟩
  · rw [← huses hi, ← huses hj]

/-- A handler registers a listener. -/
def mild : Interpreter where
  host := { Host.silent with
    handler := fun _ args => do
      modify fun m => { m with registry := m.registry.add .progress "watch" false }
      pure args }

/-- Turns of both loads, and then the modal command is forgotten. -/
def threeWay (n : Nat) : Move := if n % 3 = 2 then .aside Interpreter.reset else .turn (n % 3)

theorem mild_considerate : mild.Considerate where
  intact op := by cases op <;> rfl
  listener _ _ m := ⟨m, rfl⟩
  handler _ args _ := ⟨args, _, rfl⟩
  method _ args m := ⟨(0, args), m, rfl⟩
  conduct :=
    { toSteady := Machine.steady_aloof
      log := fun m _ _ => ⟨m.staysOut_log _, rfl⟩
      deals := fun m _ => ⟨m.staysOut_log _, rfl⟩
      call := fun _ _ _ => ⟨Machine.staysOut_of_eq rfl rfl rfl rfl, rfl⟩
      spend := fun _ _ _ => ⟨Machine.staysOut_of_eq rfl rfl rfl rfl, rfl⟩
      handler := fun _ _ _ => ⟨Machine.staysOut_of_eq rfl rfl rfl rfl, rfl⟩
      method := fun _ args => Machine.steady_aloof.nothing args
      listener := fun _ _ => Machine.steady_aloof.nothing ()
      answer := fun _ _ _ hop => by cases hop }
  told _ _ := Machine.steady_staysOut.nothing ()

theorem loads_interleave_mild :
    let m := twoLoads "G1 X1\nX2" "X3\nG0"
    ∃ k solo r,
      mild.Account 0 none (fun _ => .turn 0) (m.alone m.tasks[1]) k solo ∧
      mild.EndsWith 0 (fun _ => .turn 0) (m.alone m.tasks[1]) k r ∧
      mild.Loads m m.tasks[1] solo ∧
      (∀ n, ∃ bs, mild.Account 1 none threeWay m n bs ∧ bs <+: solo ∧
        ∀ r', mild.EndsWith 1 threeWay m n r' → bs = solo ∧ r' = r) ∧
      ∃ n r', mild.EndsWith 1 threeWay m n r' := by
  intro m
  have hattentive : mild.Attentive := ⟨mild_considerate.toListening, fun _ _ m => ⟨m, rfl⟩⟩
  have hreset : ∀ m : Machine, m.StaysOut { m with modal := "" } :=
    fun m => Machine.staysOut_of_eq rfl rfl rfl rfl
  have hgentle : ∀ n, (threeWay n).Gentle Machine.LeavesLoads := by
    intro n
    rw [threeWay]
    split
    · exact fun m => (hreset m).toLeavesLoads
    · trivial
  have hfair : Interpreter.Fair 1 threeWay := by
    intro n
    refine ⟨2 * n + 1, ?_⟩
    rw [threeWay, if_neg (by omega)]
    congr 1
    omega
  obtain ⟨hloads, -⟩ :=
    loads_interleave mild mild_considerate m (twoLoads_orderly _ _) threeWay hgentle
  obtain ⟨k, solo, r, haccount, hends, hloaded, hsame, hend⟩ := hloads 1 m.tasks[1] rfl rfl rfl
  refine ⟨k, solo, r, haccount, hends, hloaded, fun n => ?_, hend hfair⟩
  obtain ⟨bs, haccount, hbegins, hresult⟩ := hsame n
  exact ⟨bs, haccount, hbegins, fun r' hr' =>
    ⟨(hresult r' hr').1, (hresult r' hr').2 hattentive⟩⟩

/-- A handler closes the stream of the second load. -/
def meddler : Interpreter where
  host := { Host.silent with
    handler := fun _ args => do
      modify fun m => m.updateStream 1 Stream.close
      pure args }

/-- That whatever is called returns and leaves the modal command alone does not keep loads apart. A
handler that closes the source of another load makes that load fail, which alone gives its line. -/
theorem meddler_interferes :
    let m := twoLoads "G1\n" "G0\n"
    (∀ id args m, ∃ left m', meddler.host.handler id args m = .ok left m' ∧ m'.modal = m.modal) ∧
    (∀ code args m, ∃ r m', meddler.callMethod code args m = .ok r m' ∧ m'.modal = m.modal) ∧
    (∀ id payload m, ∃ m', meddler.host.listener id payload m = .ok () m' ∧ m'.modal = m.modal) ∧
    m.Orderly ∧
    meddler.EndsWith 0 (fun _ => .turn 0) (m.alone m.tasks[1]) 3
      (.ok (some [⟨"G0", [⟨"G", .int 0⟩], none, none, some 1, none⟩])) ∧
    meddler.EndsWith 1 (fun n => .turn (n % 2)) m 4 (.ok none) := by
  intro m
  have he : encodingNamed meddler.encoding = .ok .utf8 := encodingNamed_standard
  refine ⟨fun _ args _ => ⟨args, _, rfl, rfl⟩, fun _ args m => ⟨(0, args), m, rfl, rfl⟩,
    fun _ _ m => ⟨m, rfl, rfl⟩, twoLoads_orderly _ _, ?_, ?_⟩
  · refine Stage.map_eq_done ?_
    simp only [Interpreter.runs, Move.act]
    unfold Interpreter.runTask Interpreter.advance Interpreter.startTask Interpreter.begin
    rw [he]
    decide +kernel
  · refine Stage.map_eq_done ?_
    simp only [Interpreter.runs, Move.act]
    unfold Interpreter.runTask Interpreter.advance Interpreter.startTask Interpreter.begin
    rw [he]
    decide +kernel

end Gcode
