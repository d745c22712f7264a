import Gcode.Proofs.Conduct
import Gcode.Proofs.Tasks

/-!
What happens on the event loop. Turns of tasks come in any order and are mixed with whatever else is
done: what happens next is a turn of a task or something else, and a schedule says which, at every
time. What host code must respect is said by relations between the machine before and after it: that
it does not meddle with tasks, and that it does not refill what is read. If host code respects them,
so does every turn of a task (`Respects.keepsTasks`, `Respects.drains`), and a task that was started
changes by its own turns only (`move_task`).
-/

namespace Gcode

open Act

/-! ### Tasks and sources that are left alone -/

/-- A task is the same, except that it may have been cancelled. -/
def Machine.KeepsTask (i : Nat) (m m' : Machine) : Prop :=
  ∀ task : Task, m.tasks[i]? = some task →
    ∃ cancelled : Bool, m'.tasks[i]? = some { task with cancelled }

/-- The tasks that were there are the same, except that they may have been cancelled. -/
def Machine.KeepsTasks (m m' : Machine) : Prop := ∀ i, m.KeepsTask i m'

/-- The sources that were there read the same streams, and there is no more left to read. -/
structure Machine.Drains (m m' : Machine) : Prop where
  source : ∀ (i : Nat) (src : Source), m.sources[i]? = some src →
    ∃ src' : Source, m'.sources[i]? = some src' ∧ src'.stream = src.stream
  stream : ∀ (i : Nat) (s : Stream), m.streams[i]? = some s →
    ∃ s' : Stream, m'.streams[i]? = some s' ∧ s'.left ≤ s.left

namespace Machine

variable {m m' m'' : Machine} {i : Nat} {src : Source} {s : Stream}

theorem steady_keepsTask (i : Nat) : Steady (KeepsTask i) where
  refl _ task htask := ⟨task.cancelled, htask⟩
  trans h h' task htask := by
    obtain ⟨c, hc⟩ := h task htask
    obtain ⟨c', hc'⟩ := h' _ hc
    exact ⟨c', hc'⟩

theorem steady_keepsTasks : Steady KeepsTasks where
  refl m i := (steady_keepsTask i).refl m
  trans h h' i := (steady_keepsTask i).trans (h i) (h' i)

theorem keepsTasks_of_eq (h : m'.tasks = m.tasks) : m.KeepsTasks m' :=
  fun i task htask => ⟨task.cancelled, by rw [h, htask]⟩

theorem Drains.refl (m : Machine) : m.Drains m where
  source _ src h := ⟨src, h, rfl⟩
  stream _ s h := ⟨s, h, Nat.le_refl s.left⟩

theorem Drains.trans (h : m.Drains m') (h' : m'.Drains m'') : m.Drains m'' where
  source i src hsrc := by
    obtain ⟨src', hsrc', heq⟩ := h.source i src hsrc
    obtain ⟨src'', hsrc'', heq'⟩ := h'.source i src' hsrc'
    exact ⟨src'', hsrc'', heq'.trans heq⟩
  stream i s hs := by
    obtain ⟨s', hs', hleft⟩ := h.stream i s hs
    obtain ⟨s'', hs'', hleft'⟩ := h'.stream i s' hs'
    exact ⟨s'', hs'', Nat.le_trans hleft' hleft⟩

theorem steady_drains : Steady Drains := ⟨Drains.refl, Drains.trans⟩

/-- What changes neither sources nor streams does not refill them. -/
theorem drains_of_eq (hsources : m'.sources = m.sources) (hstreams : m'.streams = m.streams) :
    m.Drains m' where
  source _ src h := ⟨src, by rw [hsources, h], rfl⟩
  stream _ s h := ⟨s, by rw [hstreams, h], Nat.le_refl s.left⟩

theorem drains_updateStream (f : Stream → Stream)
    (hf : ∀ s, m.streams[i]? = some s → (f s).left ≤ s.left) : m.Drains (m.updateStream i f) where
  source _ src h := ⟨src, h, rfl⟩
  stream j s h := by
    by_cases hij : i = j
    · subst hij
      exact ⟨f s, by simp [updateStream, h], hf s h⟩
    · exact ⟨s, by simp [updateStream, hij, h], Nat.le_refl s.left⟩

theorem drains_updateSource (f : Source → Source) (hf : ∀ src, (f src).stream = src.stream) :
    m.Drains (m.updateSource i f) where
  source j src h := by
    by_cases hij : i = j
    · subst hij
      exact ⟨f src, by simp [updateSource, h], hf src⟩
    · exact ⟨src, by simp [updateSource, hij, h], rfl⟩
  stream _ s h := ⟨s, h, Nat.le_refl s.left⟩

theorem drains_countRead (is : List Nat) (n : Nat) : ∀ m : Machine, m.Drains (m.countRead is n) := by
  induction is with
  | nil => exact Drains.refl
  | cons i is ih =>
    intro m
    have hcount : m.Drains (m.updateSource i fun src => { src with consumed := src.consumed + n }) :=
      drains_updateSource _ fun _ => rfl
    exact hcount.trans (ih _)

theorem Drains.reads (h : m.Drains m') (hm : m.Reads i src s) :
    ∃ src' s', m'.Reads i src' s' ∧ s'.left ≤ s.left := by
  obtain ⟨src', hsrc', heq⟩ := h.source i src hm.source
  obtain ⟨s', hs', hleft⟩ := h.stream src.stream s hm.stream
  exact ⟨src', s', ⟨hsrc', by rw [heq, hs']⟩, hleft⟩

end Machine

/-- Host code respects a relation, and so do the commands that lead to an operation. -/
structure Interpreter.Respects (it : Interpreter) (R : Machine → Machine → Prop) : Prop where
  handler : ∀ id args, (it.host.handler id args).Moves R
  method : ∀ mt args, (it.host.method mt args).Moves R
  listener : ∀ id payload, (it.host.listener id payload).Moves R
  callback : ∀ id outcome, (it.host.callback id outcome).Moves R
  answer : ∀ code name op, it.dialect.attribute? code = some (name, .operation op) →
    ∀ args, (it.answer op args).Moves R

namespace Interpreter

variable {it : Interpreter}

theorem Respects.mono {R R' : Machine → Machine → Prop} (hit : it.Respects R)
    (h : ∀ m m', R m m' → R' m m') : it.Respects R' where
  handler id args := (hit.handler id args).mono h
  method mt args := (hit.method mt args).mono h
  listener id payload := (hit.listener id payload).mono h
  callback id outcome := (hit.callback id outcome).mono h
  answer code name op hop args := (hit.answer code name op hop args).mono h

/-- A relation that asks for nothing but what becomes of the tasks allows all that a load does until
it comes to its next stage. -/
theorem Respects.habits {R : Machine → Machine → Prop} (hit : it.Respects R) (hsteady : Steady R)
    (h : ∀ m m' : Machine, m'.tasks = m.tasks → m'.current = m.current → R m m') :
    it.Habits R where
  toSteady := hsteady
  log _ _ _ := h _ _ rfl rfl
  deals _ _ := h _ _ rfl rfl
  call _ _ _ := h _ _ rfl rfl
  spend _ _ _ := h _ _ rfl rfl
  read _ _ _ _ _ := h _ _ rfl rfl
  close _ _ := h _ _ rfl rfl
  opens _ _ := h _ _ rfl rfl
  wraps _ _ := h _ _ rfl rfl
  total _ _ _ := h _ _ rfl rfl
  count m is n := by
    have hcore := Machine.countRead_core is n m
    exact h _ _ (Machine.eq_of_core hcore _ fun _ => rfl) (Machine.eq_of_core hcore _ fun _ => rfl)
  modal _ _ := h _ _ rfl rfl
  told _ _ _ := h _ _ rfl rfl
  handler := hit.handler
  method := hit.method
  listener := hit.listener
  callback := hit.callback
  answer := hit.answer

theorem Respects.keepsTasks (h : it.Respects Machine.KeepsTasks) : it.Habits Machine.KeepsTasks :=
  h.habits Machine.steady_keepsTasks fun _ _ htasks _ => Machine.keepsTasks_of_eq htasks

theorem Respects.drains (h : it.Respects Machine.Drains) : it.Habits Machine.Drains where
  toSteady := Machine.steady_drains
  log _ _ _ := Machine.drains_of_eq rfl rfl
  deals _ _ := Machine.drains_of_eq rfl rfl
  call _ _ _ := Machine.drains_of_eq rfl rfl
  spend _ _ _ := Machine.drains_of_eq rfl rfl
  read m i s size hs := by
    refine Machine.drains_updateStream _ fun s' hs' => ?_
    cases hs.symm.trans hs'
    exact s.left_read_le size
  close m i := by
    refine Machine.drains_updateStream _ fun s _ => ?_
    rw [Stream.close]
    split
    · exact Nat.le_refl s.left
    · exact Nat.le_refl s.left
  opens m s :=
    { source := fun _ src h => ⟨src, h, rfl⟩
      stream := fun _ s' h =>
        ⟨s', (List.getElem?_append_left (List.getElem?_eq_some_iff.1 h).1).trans h,
          Nat.le_refl s'.left⟩ }
  wraps m src :=
    { source := fun _ src' h =>
        ⟨src', (List.getElem?_append_left (List.getElem?_eq_some_iff.1 h).1).trans h, rfl⟩
      stream := fun _ s h => ⟨s, h, Nat.le_refl s.left⟩ }
  total _ _ _ := Machine.drains_updateSource _ fun _ => rfl
  count m is n := Machine.drains_countRead is n m
  modal _ _ := Machine.drains_of_eq rfl rfl
  told _ _ _ := Machine.drains_of_eq rfl rfl
  handler := h.handler
  method := h.method
  listener := h.listener
  callback := h.callback
  answer := h.answer

end Interpreter

/-! ### Schedules -/

/-- What may happen next on the event loop: a task has a turn, or something else is done. -/
inductive Move where
  | turn (i : Nat)
  | aside (a : Act Unit)

/-- Whatever is done besides turns respects a relation. -/
def Move.Gentle (R : Machine → Machine → Prop) : Move → Prop
  | .turn _ => True
  | .aside a => a.Moves R

theorem Move.Gentle.mono {R R' : Machine → Machine → Prop} {move : Move} (hmove : move.Gentle R)
    (h : ∀ m m', R m m' → R' m m') : move.Gentle R' := by
  cases move with
  | turn i => trivial
  | aside a => exact Moves.mono hmove h

/-- What a move does. -/
def Move.act (it : Interpreter) : Move → Act Unit
  | .turn i => it.runTask i
  | .aside a => a

namespace Interpreter

/-- The machine after the first moves of a schedule. -/
def runs (it : Interpreter) (schedule : Nat → Move) (m : Machine) : (moves : Nat) → Machine
  | 0 => m
  | n + 1 => ((schedule n).act it).after (it.runs schedule m n)

variable {it : Interpreter} {m : Machine} {i : Nat} {task : Task}

/-- The turn of a task changes no other task. -/
theorem runTask_other (hit : it.Respects Machine.KeepsTasks) {j : Nat} (hij : j ≠ i) :
    (it.runTask j).Moves (Machine.KeepsTask i) := by
  have h : Steady (Machine.KeepsTask i) := Machine.steady_keepsTask i
  refine looks fun m => ?_
  split
  · exact h.nothing ()
  · rename_i task _
    have hadvance : (it.advance task).Moves (Machine.KeepsTask i) :=
      fun m => hit.keepsTasks.moves_advance task m i
    refine h.follows hadvance fun stage => h.follows (fun m task htask => ?_) fun _ => ?_
    · refine ⟨task.cancelled, ?_⟩
      show (m.tasks.modify j _)[i]? = _
      simp [hij, htask]
    · split
      · exact fun m task htask => ⟨task.cancelled, htask⟩
      · exact h.nothing ()

theorem enterStage_task (htask : m.tasks[i]? = some task) (stage : Stage) :
    (m.enterStage i stage).tasks[i]? = some { task with stage } := by
  obtain ⟨queue, heq⟩ := m.enterStage_eq i stage
  rw [heq]
  simp [Machine.updateTask, htask]

/-- A task changes by its own turns only, apart from being cancelled. -/
theorem move_task (hit : it.Respects Machine.KeepsTasks) {move : Move}
    (hmove : move.Gentle Machine.KeepsTasks) (hturn : move ≠ .turn i)
    (htask : m.tasks[i]? = some task) :
    ∃ cancelled, ((move.act it).after m).tasks[i]? = some { task with cancelled } := by
  cases move with
  | turn j => exact runTask_other hit (fun h => hturn (congrArg Move.turn h)) m task htask
  | aside a => exact hmove m i task htask

theorem enterStage_drains (m : Machine) (i : Nat) (stage : Stage) :
    m.Drains (m.enterStage i stage) := by
  obtain ⟨queue, heq⟩ := m.enterStage_eq i stage
  rw [heq]
  exact Machine.drains_of_eq rfl rfl

/-- What happens on the event loop respects a relation that allows all that a load does and allows a
task to come to its next stage. -/
theorem Habits.moves_move {R : Machine → Machine → Prop} (h : it.Habits R)
    (henter : ∀ m i stage, R m (m.enterStage i stage)) {move : Move} (hmove : move.Gentle R) :
    (move.act it).Moves R := by
  cases move with
  | aside a => exact hmove
  | turn i =>
    refine looks fun m => ?_
    split
    · exact h.nothing ()
    · rename_i task _
      refine h.follows (h.moves_advance task) fun stage m => ?_
      have hstage : (do
          modify fun m => m.updateTask i fun t => { t with stage }
          if !stage.isDone then modify fun m => { m with queue := m.queue ++ [i] } : Act Unit) m =
          .ok () (m.enterStage i stage) := by
        cases stage <;> rfl
      rw [after, hstage]
      exact henter m i stage

/-- So does a whole schedule. -/
theorem Habits.runs_respects {R : Machine → Machine → Prop} (h : it.Habits R)
    (henter : ∀ m i stage, R m (m.enterStage i stage)) {schedule : Nat → Move}
    (hschedule : ∀ n, (schedule n).Gentle R) (m : Machine) : ∀ n, R m (it.runs schedule m n)
  | 0 => h.refl m
  | n + 1 => h.trans (h.runs_respects henter hschedule m n) (h.moves_move henter (hschedule n) _)

/-- Nothing is refilled by what happens on the event loop. -/
theorem move_drains (hit : it.Respects Machine.Drains) {move : Move}
    (hmove : move.Gentle Machine.Drains) : (move.act it).Moves Machine.Drains :=
  hit.drains.moves_move enterStage_drains hmove

/-- What other moves leave as it is lasts until the next turn of a task, if there is one. -/
theorem next_turn {schedule : Nat → Move} {P : Nat → Prop}
    (hkeep : ∀ t, schedule t ≠ .turn i → P t → P (t + 1)) {t : Nat} (ht : P t) :
    ∀ later, schedule (t + later) = .turn i → ∃ t', t ≤ t' ∧ schedule t' = .turn i ∧ P t' := by
  intro later
  induction later generalizing t with
  | zero => exact fun hturn => ⟨t, Nat.le_refl t, hturn, ht⟩
  | succ later ih =>
    intro hturn
    by_cases hnow : schedule t = .turn i
    · exact ⟨t, Nat.le_refl t, hnow, ht⟩
    · rw [← Nat.succ_add_eq_add_succ] at hturn
      obtain ⟨t', hle, hnext⟩ := ih (hkeep t hnow ht) hturn
      exact ⟨t', Nat.le_of_succ_le hle, hnext⟩

end Interpreter

end Gcode
