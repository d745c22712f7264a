import Gcode.Proofs.Completion
import Gcode.Proofs.Stages

/-!
Turns that leave other tasks alone. A task has a stream to itself for as long as it runs, and keeps to
it in its turn: what it comes to reads that stream, and tasks that are started meanwhile read others.
Main statements: whatever happens on the event loop leaves the loads orderly (`move_orderly`), and
leaves every task where it stood whose turn it is not (`move_leaves`).
-/

namespace Gcode

open Act

namespace Machine

variable {m m' : Machine} {h : Handle} {t i j : Nat} {v : View} {task : Task} {stage : Stage}

/-! ### Tasks that come to a stage -/

theorem Sees.of_eq (hstreams : m'.streams = m.streams) (hsources : m'.sources = m.sources)
    (hv : m.Sees h t v) : m'.Sees h t v := by
  cases hv with
  | stream hs => exact .stream (by rw [hstreams, hs])
  | @source k _ _ hreads =>
    have hnames : m'.sourceNames (m'.passage k) = m.sourceNames (m.passage k) := by
      rw [sourceNames, sourceNames, passage, passage, hsources]
    rw [← hnames]
    exact .source ⟨by rw [hsources, hreads.source], by rw [hstreams, hreads.stream]⟩

theorem enterStage_other (hij : j ≠ i) : (m.enterStage i stage).tasks[j]? = m.tasks[j]? := by
  obtain ⟨queue, heq⟩ := m.enterStage_eq i stage
  rw [heq]
  show (m.tasks.modify i _)[j]? = _
  simp [Ne.symm hij]

theorem enterStage_sees : (m.enterStage i stage).Sees h t v ↔ m.Sees h t v := by
  obtain ⟨queue, heq⟩ := m.enterStage_eq i stage
  rw [heq]
  exact ⟨.of_eq rfl rfl, .of_eq rfl rfl⟩

/-- The loads stay orderly if a task ends, or goes on with a stream that no other task reads. -/
theorem Orderly.enterStage (hm : m.Orderly) (htask : m.tasks[i]? = some task)
    (hstage : stage.isDone = true ∨ ∃ load t v, stage = .reading load ∧
      m.Sees (.source load.source) t v ∧ ∀ j, m.Uses j t → j = i) :
    (m.enterStage i stage).Orderly := by
  have hown := Interpreter.enterStage_task htask stage
  have huses : ∀ {j t}, j ≠ i → (m.enterStage i stage).Uses j t → m.Uses j t := by
    rintro j t hij ⟨task', h, v, htask', hhandle, hv⟩
    rw [enterStage_other hij] at htask'
    exact ⟨task', h, v, htask', hhandle, enterStage_sees.1 hv⟩
  -- what the task itself reads now
  have hreads : ∀ {task' h}, (m.enterStage i stage).tasks[i]? = some task' →
      task'.handle? = some h → ∃ t v, m.Sees h t v ∧ ∀ j, m.Uses j t → j = i := by
    intro task' h htask' hhandle
    cases hown.symm.trans htask'
    rcases hstage with hdone | ⟨load, t, v, rfl, hv, hothers⟩
    · obtain ⟨r, rfl⟩ := Stage.eq_done hdone
      cases hhandle
    · cases hhandle
      exact ⟨t, v, hv, hothers⟩
  have hself : ∀ {j t}, (m.enterStage i stage).Uses i t → (m.enterStage i stage).Uses j t →
      j = i := by
    rintro j t ⟨task', h, v, htask', hhandle, hv⟩ hj
    by_contra hij
    obtain ⟨t', v', hv', hothers⟩ := hreads htask' hhandle
    obtain ⟨rfl, -⟩ := (enterStage_sees.1 hv).unique hv'
    exact hij (hothers j (huses hij hj))
  refine ⟨?_, ?_, ?_⟩
  · obtain ⟨queue, heq⟩ := m.enterStage_eq i stage
    rw [heq]
    exact hm.inner
  · intro j task' h htask' hhandle
    by_cases hij : j = i
    · subst hij
      obtain ⟨t, v, hv, -⟩ := hreads htask' hhandle
      exact ⟨t, v, enterStage_sees.2 hv⟩
    · rw [enterStage_other hij] at htask'
      obtain ⟨t, v, hv⟩ := hm.there j task' h htask' hhandle
      exact ⟨t, v, enterStage_sees.2 hv⟩
  · intro j k t hj hk
    by_cases hji : j = i
    · subst hji
      exact (hself hj hk).symm
    · by_cases hki : k = i
      · subst hki
        exact hself hk hj
      · exact hm.apart j k t (huses hji hj) (huses hki hk)

/-- A stream that no other task has read is not read by tasks that were started meanwhile. -/
theorem Frame.uses (hframe : m.Frame t m') (hm : m.Orderly) (hothers : ∀ j, m.Uses j t → j = i) :
    ∀ j, m'.Uses j t → j = i := by
  intro j hj
  by_cases hlt : j < m.tasks.length
  · refine hothers j (uses_of_uses hm (getElem?_before hframe.tasks hlt) ?_ hj)
    exact fun hv => hv.lasts hframe.grows hframe.sources
  · obtain ⟨task, h, v, htask, hhandle, hv⟩ := hj
    obtain ⟨t', v', hv', hne⟩ := hframe.fresh j task h (Nat.le_of_not_lt hlt) htask hhandle
    exact absurd (hv'.unique hv).1 hne

end Machine

namespace Interpreter

variable {it : Interpreter} {m m' : Machine} {i j t : Nat} {c : Standing} {task : Task}
  {callback : Option String} {stage : Stage} {xs : List Item} {move : Move}

/-! ### Where tasks stand -/

/-- A task stands where it stood if it sees what it saw. -/
theorem stands_of_sees (hstrict : m'.strict = m.strict)
    (hsees : ∀ {h t v}, task.handle? = some h → m.Sees h t v → m'.Sees h t v)
    (hstands : it.Stands m task c) : it.Stands m' task c := by
  cases hstands with
  | @given h t v hstage horigin hv =>
    rw [← hstrict]
    exact .given hstage horigin (hsees (Task.handle?_given hstage horigin hv.refusal?_eq) hv)
  | opened hstage howned hopens =>
    rw [← hstrict]
    exact .opened hstage howned hopens
  | refused hstage horigin hrefused => exact .refused hstage horigin hrefused
  | unopened hstage howned hopens => exact .unopened hstage howned hopens
  | @reading load t _ hstage hshows =>
    obtain ⟨hphase, hv⟩ := Load.shows_iff.1 hshows
    exact .reading hstage (Load.shows_iff.2 ⟨hphase, hsees (Task.handle?_reading hstage) hv⟩)

theorem stands_isDone (hstands : it.Stands m task c) : task.stage.isDone = false := by
  cases hstands with
  | given hstage | opened hstage | refused hstage | unopened hstage | reading hstage =>
    rw [hstage]
    rfl

/-- A task stands somewhere unless it has ended. -/
theorem stands_somewhere (it : Interpreter) (hm : m.Orderly) (htask : m.tasks[i]? = some task)
    (hgoing : task.stage.isDone = false) : ∃ c, it.Stands m task c := by
  cases hstage : task.stage with
  | done r =>
    rw [hstage] at hgoing
    cases hgoing
  | reading load =>
    obtain ⟨t, v, hv⟩ := hm.there i task _ htask (Task.handle?_reading hstage)
    exact ⟨⟨load.phase.plain, v⟩, .reading hstage (Load.shows_iff.2 ⟨rfl, hv⟩)⟩
  | scheduled =>
    have hopens : task.origin.owned = true → ∃ c, it.Stands m task c := by
      intro howned
      cases hopen : it.opens task.origin with
      | ok v => exact ⟨_, .opened hstage howned hopen⟩
      | error f => exact ⟨_, .unopened hstage howned hopen⟩
    cases horigin : task.origin with
    | text x => exact hopens (by rw [horigin]; rfl)
    | file path => exact hopens (by rw [horigin]; rfl)
    | stream h =>
      cases hrefused : h.refusal? with
      | some f => exact ⟨_, .refused hstage horigin hrefused⟩
      | none =>
        obtain ⟨t, v, hv⟩ :=
          hm.there i task h htask (Task.handle?_given hstage horigin hrefused)
        exact ⟨_, .given hstage horigin hv⟩

/-! ### Moves -/

/-- What happens leaves a task as it is, and standing where it stood. -/
def LeavesTask (it : Interpreter) (i : Nat) (m m' : Machine) : Prop :=
  ∀ task : Task, m.tasks[i]? = some task → m'.tasks[i]? = some task ∧
    ∀ c, it.Stands m task c → it.Stands m' task c

theorem leavesTask_of_spares (hm : m.Orderly) (hspares : m.Spares t m') (ht : ¬ m.Uses i t) :
    it.LeavesTask i m m' := by
  intro task htask
  refine ⟨getElem?_grown hspares.tasks htask, fun c hstands => ?_⟩
  refine stands_of_sees hspares.strict (fun {h t' v} hhandle hv => ?_) hstands
  refine hspares.sees hm hv ?_
  rintro rfl
  exact ht ⟨task, h, v, htask, hhandle, hv⟩

/-- A task keeps to a stream in its turn: no other task reads it, then or afterwards. -/
def KeepsTo (i : Nat) (m : Machine) (stage : Stage) (m' : Machine) : Prop :=
  ∃ t, (∀ j, m.Uses j t → j = i) ∧ m.Spares t m' ∧
    (stage.isDone = true ∨ ∃ load v, stage = .reading load ∧ m'.Sees (.source load.source) t v ∧
      ∀ j, m'.Uses j t → j = i)

theorem Arrives.spares (h : it.Arrives task t c m stage m') : m.Spares t m' := by
  cases h with
  | waiting _ hworks => exact hworks.frame.toSpares
  | ended _ _ _ hspares => exact hspares

theorem Arrives.keepsTo (hm : m.Orderly) (hothers : ∀ j, m.Uses j t → j = i)
    (h : it.Arrives task t c m stage m') : KeepsTo i m stage m' := by
  refine ⟨t, hothers, h.spares, ?_⟩
  cases h with
  | waiting hshows hworks =>
    exact .inr ⟨_, _, rfl, (Load.shows_iff.1 hshows).2, hworks.frame.uses hm hothers⟩
  | ended => exact .inl rfl

/-- A task that was cancelled closes what it opened and ends. -/
theorem cancelTask_keepsTo (hm : m.Orderly) (htask : m.tasks[i]? = some task) :
    ∃ stage m', cancelTask task m = .ok stage m' ∧ KeepsTo i m stage m' := by
  cases hstage : task.stage with
  | reading load =>
    have hhandle := Task.handle?_reading hstage
    obtain ⟨t, v, hv⟩ := hm.there i task _ htask hhandle
    refine ⟨.done (.error .cancelled), released task (.source load.source) m, ?_, t, fun j hj =>
      hm.apart j i t hj ⟨task, _, v, htask, hhandle, hv⟩,
      (frame_released task hv).toSpares, .inl rfl⟩
    rw [cancelTask, hstage]
    exact bind_ok (release_eq _ _ _) _
  | _ =>
    refine ⟨.done (.error .cancelled), m, ?_, m.streams.length,
      fun j hj => absurd hj.lt_length (Nat.lt_irrefl _), (Machine.Frame.refl _ m).toSpares, .inl rfl⟩
    rw [cancelTask, hstage]
    rfl

/-- In its turn a task does nothing, or it comes to a stage and keeps to a stream. -/
theorem turn_keepsTo (hit : it.Considerate) (hm : m.Orderly) (i : Nat) :
    (it.runTask i).after m = m ∨ ∃ task stage m', m.tasks[i]? = some task ∧
      (it.runTask i).after m = m'.enterStage i stage ∧ KeepsTo i m stage m' := by
  cases htask : m.tasks[i]? with
  | none =>
    left
    rw [after, runTask, get_bind, htask]
    rfl
  | some task =>
    cases hgoing : task.stage.isDone with
    | true => exact .inl (runTask_isDone htask hgoing)
    | false =>
      right
      have hadvance : ∃ stage m', it.advance task m = .ok stage m' ∧ KeepsTo i m stage m' := by
        cases hcancelled : task.cancelled with
        | true =>
          obtain ⟨stage, m', hcancel, hkeeps⟩ := cancelTask_keepsTo hm htask
          refine ⟨stage, m', ?_, hkeeps⟩
          rw [advance_cancelled hgoing hcancelled, hcancel]
        | false =>
          obtain ⟨c, hstands⟩ := it.stands_somewhere hm htask hgoing
          obtain ⟨t, stage, m', hadvance, hothers, harrives⟩ :=
            advance_follows hit hm htask hcancelled hstands
          exact ⟨stage, m', hadvance, harrives.keepsTo hm hothers⟩
      obtain ⟨stage, m', hadvance, hkeeps⟩ := hadvance
      refine ⟨task, stage, m', rfl, ?_, hkeeps⟩
      rw [after, runTask_eq htask hadvance]

/-- What a task does in its turn leaves the loads orderly. -/
theorem KeepsTo.orderly (hm : m.Orderly) (htask : m.tasks[i]? = some task)
    (h : KeepsTo i m stage m') : (m'.enterStage i stage).Orderly := by
  obtain ⟨t, -, hspares, hstage⟩ := h
  refine (hspares.orderly hm).enterStage (getElem?_grown hspares.tasks htask) ?_
  exact hstage.imp_right fun ⟨load, v, hload, hv, hothers⟩ => ⟨load, t, v, hload, hv, hothers⟩

/-- What a task does in its turn leaves the other tasks where they stood. -/
theorem KeepsTo.leaves (it : Interpreter) (hm : m.Orderly) (h : KeepsTo i m stage m')
    (hij : j ≠ i) : it.LeavesTask j m (m'.enterStage i stage) := by
  obtain ⟨t, hothers, hspares, -⟩ := h
  have hleaves : it.LeavesTask j m m' :=
    leavesTask_of_spares hm hspares fun hj => hij (hothers j hj)
  intro task htask
  obtain ⟨htask', hstands⟩ := hleaves task htask
  obtain ⟨queue, heq⟩ := m'.enterStage_eq i stage
  refine ⟨(Machine.enterStage_other hij).trans htask', fun c hc => ?_⟩
  refine stands_of_sees ?_ (fun _ hv => Machine.enterStage_sees.2 hv) (hstands c hc)
  rw [heq]
  rfl

/-- What happens on the event loop leaves the loads orderly. -/
theorem move_orderly (hit : it.Considerate) (hm : m.Orderly)
    (hmove : move.Gentle Machine.LeavesLoads) : ((move.act it).after m).Orderly := by
  cases move with
  | aside a => exact (hmove m).orderly hm
  | turn i =>
    rcases turn_keepsTo hit hm i with hidle | ⟨task, stage, m', htask, hafter, hkeeps⟩
    · rw [Move.act, hidle]
      exact hm
    · rw [Move.act, hafter]
      exact hkeeps.orderly hm htask

/-- What happens on the event loop leaves every task where it stood whose turn it is not. -/
theorem move_leaves (hit : it.Considerate) (hm : m.Orderly)
    (hmove : move.Gentle Machine.LeavesLoads) (hturn : move ≠ .turn j) :
    it.LeavesTask j m ((move.act it).after m) := by
  have hnone : it.LeavesTask j m m := fun task htask => ⟨htask, fun _ h => h⟩
  cases move with
  | aside a =>
    -- a stream of which there are so many cannot be read by any task
    exact leavesTask_of_spares hm ((hmove m).spares m.streams.length) fun hj =>
      absurd hj.lt_length (Nat.lt_irrefl _)
  | turn i =>
    have hij : j ≠ i := fun h => hturn (by rw [h])
    rcases turn_keepsTo hit hm i with hidle | ⟨task, stage, m', htask, hafter, hkeeps⟩
    · rw [Move.act, hidle]
      exact hnone
    · rw [Move.act, hafter]
      exact hkeeps.leaves it hm hij

end Interpreter

end Gcode
