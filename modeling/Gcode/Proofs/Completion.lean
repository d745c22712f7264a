import Gcode.Proofs.Accounts
import Gcode.Proofs.Schedules
import Mathlib.Data.List.Basic

/-!
Loads in the background come to an end. A step of a load leaves less to do, and only so many turns
pass between two steps, so a load ends if it is given turns again and again and nobody refills what
it reads. Main statement: whatever host code does, the callback of a load is told once at most; and
if listeners and callbacks return, a load ends after it has announced its end once and told the
callback the same, or announced a fault once and told the callback that, or it was stopped by a
fault that is none of loading (`load_completes`).
-/

namespace Gcode

open Act

/-! ### What is still to do -/

/-- A load is over after so many steps at most: two for each part of what is left to read, one with
data at hand, and two for the end. -/
def Phase.Within (m : Machine) (n : Nat) : Phase → Prop
  | .due load => ∃ src s, m.Reads load.source src s ∧ 2 * s.left + 2 ≤ n
  | .got load data => ∃ src s, m.Reads load.source src s ∧ 1 ≤ n ∧
      ∀ p, Piece.ofLiteral? data = some p → p.length ≠ 0 → 2 * s.left + 3 ≤ n
  | .ended _ => True

/-- The turns that a load lets pass before its next step. -/
def Load.turnsLeft (load : Load) : Nat :=
  match load.wait with
  | .turns left => left
  | .taken _ => 0

/-- A task has ended, or its load is over after so many steps and lets so many turns pass before the
next one, at most. -/
def Stage.Within (m : Machine) (n k : Nat) : Stage → Prop
  | .scheduled => False
  | .reading load => load.phase.Within m n ∧ load.turnsLeft ≤ k
  | .done _ => True

theorem Stage.eq_done {stage : Stage} (h : stage.isDone = true) : ∃ r, stage = .done r := by
  cases stage with
  | done r => exact ⟨r, rfl⟩
  | _ => cases h

namespace Interpreter

variable {it : Interpreter} {m m' : Machine} {p p' : Phase} {n k : Nat} {task : Task}
  {stage : Stage}

theorem within_drains (hm : m.Drains m') (h : p.Within m n) : p.Within m' n := by
  cases p with
  | due load =>
    obtain ⟨src, s, hreads, hn⟩ := h
    obtain ⟨src', s', hreads', hleft⟩ := hm.reads hreads
    exact ⟨src', s', hreads', by omega⟩
  | got load data =>
    obtain ⟨src, s, hreads, hpos, hn⟩ := h
    obtain ⟨src', s', hreads', hleft⟩ := hm.reads hreads
    refine ⟨src', s', hreads', hpos, fun p hp hlen => ?_⟩
    have := hn p hp hlen
    omega
  | ended outcome => trivial

/-- A step leaves less to do. -/
theorem Step.within (hit : it.Respects Machine.Drains) (hstep : it.Step p m p' m')
    (h : p.Within m n) : ∃ n', n' < n ∧ p'.Within m' n' := by
  cases hstep with
  | @taken load data _ _ htake =>
    obtain ⟨src, s, hm, hn⟩ := h
    obtain ⟨s', hread, rfl⟩ := take_inv hm htake
    refine ⟨2 * s.left + 1, by omega, src, s', hm.updateStream s', by omega, fun p hp hlen => ?_⟩
    have := Stream.left_lt_of_read hread hp hlen
    omega
  | unread _ =>
    obtain ⟨src, s, -, hn⟩ := h
    exact ⟨0, by omega, trivial⟩
  | @received load load' data _ _ hreceive =>
    obtain ⟨src, s, hm, -, hn⟩ := h
    obtain ⟨p, hp, hlen, hingest⟩ := receive_inv hreceive
    obtain ⟨src', s', hm', hleft⟩ :=
      ((hit.drains.moves_receive load data).of_ok hreceive).reads hm
    have := hn p hp hlen
    refine ⟨2 * s'.left + 2, by omega, src', s', ?_, Nat.le_refl _⟩
    rw [source_ingest hingest]
    exact hm'
  | finished _ =>
    obtain ⟨_, _, -, hpos, -⟩ := h
    exact ⟨0, hpos, trivial⟩
  | failed _ =>
    obtain ⟨_, _, -, hpos, -⟩ := h
    exact ⟨0, hpos, trivial⟩

theorem Steps.within (hit : it.Respects Machine.Drains) {steps : Nat}
    (hsteps : it.Steps steps p m p' m') : ∀ {n : Nat}, p.Within m n →
      ∃ n', n' + steps ≤ n ∧ p'.Within m' n' := by
  induction hsteps with
  | none => exact fun h => ⟨_, Nat.le_refl _, h⟩
  | more hstep _ ih =>
    intro n h
    obtain ⟨n₁, hlt, h₁⟩ := hstep.within hit h
    obtain ⟨n₂, hle, h₂⟩ := ih h₁
    exact ⟨n₂, by omega, h₂⟩

/-- With its source there, it can be said how much a load has still to do. -/
theorem within_of_reads {load : Load} (h : ∃ src s, m.Reads load.source src s) :
    ∃ n k, (Stage.reading load).Within m n k := by
  obtain ⟨src, s, hm⟩ := h
  refine ⟨2 * s.left + 3, load.turnsLeft, ?_, Nat.le_refl _⟩
  rw [Load.phase]
  split
  · exact ⟨src, s, hm, by omega, fun _ _ _ => Nat.le_refl _⟩
  · exact ⟨src, s, hm, by omega⟩

/-! ### Turns -/

theorem announced_waiting_inv {turn : Act Turn} {load : Load}
    (h : it.announced turn m = .ok (.waiting load) m') : turn m = .ok (.waiting load) m' := by
  cases ht : turn m with
  | ok r m₁ =>
    cases r with
    | waiting l =>
      rw [announced_waiting ht] at h
      cases h
      rfl
    | finished ls =>
      rw [announced_finished ht] at h
      obtain ⟨_, _, -, hdone⟩ := bind_eq_ok h
      cases hdone
  | error f m₁ =>
    rw [announced_error ht, failed] at h
    split at h
    · obtain ⟨_, _, -, hthrow⟩ := bind_eq_ok h
      cases hthrow
    · cases h

/-- A turn ends the task, or the task goes on with the load that the turn came to. -/
theorem runTurn_inv {h : Handle} {turn : Act Turn} (hrun : it.runTurn task h turn m = .ok stage m') :
    stage.isDone = true ∨ ∃ load, stage = .reading load ∧ turn m = .ok (.waiting load) m' := by
  rw [runTurn] at hrun
  cases hann : it.announced turn m with
  | ok r m₁ =>
    rw [bind_ok (attempt_ok hann)] at hrun
    cases r with
    | waiting load =>
      cases hrun
      exact .inr ⟨load, rfl, announced_waiting_inv hann⟩
    | finished ls =>
      obtain ⟨_, _, -, hrun⟩ := bind_eq_ok hrun
      obtain ⟨told, _, -, hrun⟩ := bind_eq_ok hrun
      cases hrun
      exact .inl (stageAfter_isDone _ told)
  | error f m₁ =>
    rw [bind_ok (attempt_error hann)] at hrun
    dsimp only at hrun
    split at hrun
    · obtain ⟨told, _, -, hrun⟩ := bind_eq_ok hrun
      obtain ⟨_, _, -, hrun⟩ := bind_eq_ok hrun
      cases hrun
      exact .inl (stageAfter_isDone _ told)
    · obtain ⟨_, _, -, hrun⟩ := bind_eq_ok hrun
      cases hrun
      exact .inl rfl

theorem cancelTask_inv (h : cancelTask task m = .ok stage m') : stage.isDone = true := by
  obtain ⟨m₁, hcancel, -⟩ := cancelTask_does task m
  cases hcancel.symm.trans h
  rfl

/-- What the turn of a task that has not ended comes to. -/
theorem advance_inv (h : it.advance task m = .ok stage m') (hdone : stage.isDone = false) :
    ∃ load, stage = .reading load ∧
      ((task.stage = .scheduled ∧ ∃ handle m₁, it.begin handle .null m₁ = .ok (.waiting load) m') ∨
        ∃ before, task.stage = .reading before ∧ it.resume before m = .ok (.waiting load) m') := by
  have hturn : ∀ {handle turn} {m₁ : Machine}, it.runTurn task handle turn m₁ = .ok stage m' →
      ∃ load, stage = .reading load ∧ turn m₁ = .ok (.waiting load) m' := by
    intro handle turn m₁ hrun
    rcases runTurn_inv hrun with hend | hgoes
    · exact absurd hend (by simp [hdone])
    · exact hgoes
  have hcancelled : task.stage.isDone = false → task.cancelled = false := by
    intro hgoing
    cases hcancelled : task.cancelled with
    | false => rfl
    | true =>
      rw [advance_cancelled hgoing hcancelled] at h
      rw [cancelTask_inv h] at hdone
      cases hdone
  cases hstage : task.stage with
  | done r =>
    rw [advance, hstage] at h
    cases h
    cases hdone
  | scheduled =>
    rw [advance_scheduled hstage (hcancelled (by rw [hstage]; rfl))] at h
    cases ho : it.openOrigin task.origin m with
    | ok handle m₁ =>
      rw [startTask_opened ho] at h
      obtain ⟨load, hload, hbegin⟩ := hturn h
      exact ⟨load, hload, .inl ⟨rfl, handle, m₁, hbegin⟩⟩
    | error f m₁ =>
      rw [startTask, bind_ok (attempt_error ho)] at h
      dsimp only at h
      split at h
      · obtain ⟨told, _, -, h⟩ := bind_eq_ok h
        cases h
        rw [stageAfter_isDone] at hdone
        cases hdone
      · cases h
        cases hdone
  | reading before =>
    rw [advance_reading hstage (hcancelled (by rw [hstage]; rfl))] at h
    obtain ⟨load, hload, hresume⟩ := hturn h
    exact ⟨load, hload, .inr ⟨before, rfl, hresume⟩⟩

/-- After its first turn a task has ended, or it can be said how much there is still to do. -/
theorem advance_first (hstage : task.stage = .scheduled) (h : it.advance task m = .ok stage m') :
    ∃ n k, stage.Within m' n k := by
  cases hdone : stage.isDone with
  | true =>
    obtain ⟨r, rfl⟩ := Stage.eq_done hdone
    exact ⟨0, 0, trivial⟩
  | false =>
    obtain ⟨load, rfl, hturn⟩ := advance_inv h hdone
    rcases hturn with ⟨-, handle, m₁, hbegin⟩ | ⟨before, hreading, -⟩
    · rw [begin_eq] at hbegin
      obtain ⟨first, m₂, hprepare, hrest⟩ := bind_eq_ok hbegin
      obtain ⟨_, _, _, -, -, hsourced⟩ := it.advanceRest_steps first m₂
      exact within_of_reads (hsourced load m' hrest)
    · rw [hstage] at hreading
      cases hreading

/-- A turn of a task ends it, or there is less to do, or less to wait for. -/
theorem advance_within (hit : it.Respects Machine.Drains) (h : it.advance task m = .ok stage m')
    (hwithin : task.stage.Within m n k) : stage.isDone = true ∨
      (∃ n' < n, ∃ k', stage.Within m' n' k') ∨ ∃ k' < k, stage.Within m' n k' := by
  cases hdone : stage.isDone with
  | true => exact .inl rfl
  | false =>
    refine .inr ?_
    obtain ⟨load, rfl, hturn⟩ := advance_inv h hdone
    rcases hturn with ⟨hscheduled, -⟩ | ⟨before, hreading, hresume⟩
    · rw [hscheduled] at hwithin
      cases hwithin
    · rw [hreading] at hwithin
      obtain ⟨hphase, hturns⟩ := hwithin
      rcases it.resume_steps before m with ⟨steps, p', m₁, hsteps, hcomes, -⟩ | ⟨left, hleft, hwait⟩
      · rw [hresume] at hcomes
        cases hcomes
        obtain ⟨n', hlt, hphase'⟩ := hsteps.within hit hphase
        exact .inl ⟨n', by omega, load.turnsLeft, hphase', Nat.le_refl _⟩
      · cases hwait.symm.trans hresume
        rw [Load.turnsLeft, hleft] at hturns
        rw [Load.phase, hleft] at hphase
        exact .inr ⟨left, hturns, hphase, Nat.le_refl _⟩

/-! ### Accounts of several turns -/

section Accounts

variable {xs ys : List Item} {r : Except Fault (Option (List Line))}

theorem Closes.after_parts (hys : Parts ys) (h : Closes xs r) : Closes (ys ++ xs) r := by
  cases h with
  | lines hxs =>
    rw [← List.append_assoc]
    exact .lines (hys.append hxs)
  | fault hxs hf =>
    rw [← List.append_assoc]
    exact .fault (hys.append hxs) hf
  | stopped hxs hf => exact .stopped (hys.append hxs) hf

theorem Fits.after_parts (hys : Parts ys) (h : it.Fits xs stage) : it.Fits (ys ++ xs) stage where
  once := by
    rw [List.filterMap_append, hys.told]
    exact h.once
  ongoing hgoing := hys.append (h.ongoing hgoing)
  closes hattentive r hr := (h.closes hattentive r hr).after_parts hys

/-- What a task has done fits the stage that it is in. -/
def FitsAt (it : Interpreter) (i : Nat) (xs : List Item) (m : Machine) : Prop :=
  ∃ task : Task, m.tasks[i]? = some task ∧ it.Fits xs task.stage

theorem fits_scheduled : it.Fits [] .scheduled where
  once := Nat.zero_le 1
  ongoing _ := parts_nil
  closes _ r h := by cases h

end Accounts

/-! ### Schedules -/

section Schedules

variable {i : Nat} {move : Move} {schedule : Nat → Move}

theorem stage_within_drains (hm : m.Drains m') (h : stage.Within m n k) : stage.Within m' n k := by
  cases stage with
  | scheduled => cases h
  | reading load => exact ⟨within_drains hm h.1, h.2⟩
  | done r => trivial

theorem runTask_isDone (htask : m.tasks[i]? = some task) (hdone : task.stage.isDone = true) :
    (it.runTask i).after m = m := by
  obtain ⟨r, hstage⟩ := Stage.eq_done hdone
  rw [after, runTask_done htask hstage]

/-- The turn of a task that has not ended enters the stage that it comes to. -/
theorem turn_enters (hturn : (it.advance task).Moves (Machine.KeepsTask i))
    (htask : m.tasks[i]? = some task) (hstage : task.stage.isDone = false) :
    ∃ xs stage m' cancelled, it.advance task m = .ok stage m' ∧
      (it.runTask i).after m = m'.enterStage i stage ∧
      (m'.enterStage i stage).tasks[i]? = some { task with stage, cancelled } ∧
      it.Does task.callback xs m (m'.enterStage i stage) ∧ it.Fits xs stage := by
  obtain ⟨xs, stage, m', hadvance, hrun, hdoes, hfits⟩ := it.runTask_does htask hstage
  obtain ⟨cancelled, hcancelled⟩ := hturn.of_ok hadvance task htask
  refine ⟨xs, stage, m', cancelled, hadvance, ?_, enterStage_task hcancelled stage, hdoes, hfits⟩
  rw [after, hrun]

/-- What happens on the event loop does items for a task in its turns only, and whatever it did
before they fit what the task comes to. -/
theorem move_does (hkeeps : (it.advance task).Moves (Machine.KeepsTask i))
    (hmove : move ≠ .turn i → m.KeepsTask i ((move.act it).after m))
    (htask : m.tasks[i]? = some task) :
    ∃ xs stage cancelled,
      ((move.act it).after m).tasks[i]? = some { task with stage, cancelled } ∧
      (move = .turn i → it.Does task.callback xs m ((move.act it).after m)) ∧
      (move ≠ .turn i → xs = []) ∧
      ∀ ys, it.Fits ys task.stage → it.Fits (ys ++ xs) stage := by
  have hidle : ∀ ys, it.Fits ys task.stage → it.Fits (ys ++ []) task.stage := by
    intro ys h
    rwa [List.append_nil]
  by_cases hturn : move = .turn i
  · subst hturn
    cases hgoing : task.stage.isDone with
    | true =>
      have hafter : (it.runTask i).after m = m := runTask_isDone htask hgoing
      refine ⟨[], task.stage, task.cancelled, ?_, fun _ => ?_, fun h => absurd rfl h, hidle⟩
      · rw [Move.act, hafter, htask]
      · rw [Move.act, hafter]
        exact .idle rfl
    | false =>
      obtain ⟨xs, stage, m', cancelled, -, hafter, hentered, hdoes, hfits⟩ :=
        turn_enters hkeeps htask hgoing
      refine ⟨xs, stage, cancelled, ?_, fun _ => ?_, fun h => absurd rfl h,
        fun ys hys => hfits.after_parts (hys.ongoing hgoing)⟩
      · rw [Move.act, hafter, hentered]
      · rw [Move.act, hafter]
        exact hdoes
  · obtain ⟨cancelled, hcancelled⟩ := hmove hturn task htask
    exact ⟨[], task.stage, cancelled, hcancelled, fun h => absurd h hturn, fun _ => rfl, hidle⟩

/-- A task that has ended stays as it is. -/
theorem move_done {r : Except Fault (Option (List Line))}
    (hmove : move ≠ .turn i → m.KeepsTask i ((move.act it).after m))
    (h : m.tasks[i]?.map Task.stage = some (.done r)) :
    ((move.act it).after m).tasks[i]?.map Task.stage = some (.done r) := by
  obtain ⟨task, htask, hdone⟩ := Option.map_eq_some_iff.1 h
  by_cases hturn : move = .turn i
  · subst hturn
    rw [Move.act, after, runTask_done htask hdone]
    exact h
  · obtain ⟨cancelled, hcancelled⟩ := hmove hturn task htask
    rw [hcancelled]
    exact congrArg some hdone

/-- A task that has ended at some time has ended at all later times. -/
theorem runs_done {r : Except Fault (Option (List Line))} {t : Nat}
    (hmoves : ∀ n, schedule n ≠ .turn i → (it.runs schedule m n).KeepsTask i
      (it.runs schedule m (n + 1)))
    (h : (it.runs schedule m t).tasks[i]?.map Task.stage = some (.done r)) :
    ∀ n, t ≤ n → (it.runs schedule m n).tasks[i]?.map Task.stage = some (.done r) := by
  intro n hn
  induction hn with
  | refl => exact h
  | step _ ih => exact move_done (hmoves _) ih

/-- The turns of a task that is kept have an account, which fits whatever the task has come to. -/
theorem runs_account (hturns : ∀ task : Task, (it.advance task).Moves (Machine.KeepsTask i))
    (hmoves : ∀ n, schedule n ≠ .turn i → (it.runs schedule m n).KeepsTask i
      (it.runs schedule m (n + 1)))
    (htask : m.tasks[i]? = some task) (hstage : task.stage = .scheduled) :
    ∃ items : Nat → List Item,
      (∀ n, schedule n = .turn i →
        it.Does task.callback (items n) (it.runs schedule m n) (it.runs schedule m (n + 1))) ∧
      (∀ n, schedule n ≠ .turn i → items n = []) ∧
      ∀ n, it.FitsAt i ((List.range n).flatMap items) (it.runs schedule m n) := by
  have hthere : ∀ n, ∃ stage cancelled, (it.runs schedule m n).tasks[i]? =
      some { task with stage, cancelled } := by
    intro n
    induction n with
    | zero => exact ⟨_, _, htask⟩
    | succ n ih =>
      obtain ⟨stage, cancelled, hnow⟩ := ih
      obtain ⟨_, stage', cancelled', hnext, -⟩ := move_does (hturns _) (hmoves n) hnow
      exact ⟨stage', cancelled', hnext⟩
  -- the account of every single move, and the step from the account before it to the one after it
  have haccounts : ∀ n, ∃ xs : List Item,
      (schedule n = .turn i →
        it.Does task.callback xs (it.runs schedule m n) (it.runs schedule m (n + 1))) ∧
      (schedule n ≠ .turn i → xs = []) ∧
      ∀ ys, it.FitsAt i ys (it.runs schedule m n) →
        it.FitsAt i (ys ++ xs) (it.runs schedule m (n + 1)) := by
    intro n
    obtain ⟨stage, cancelled, hnow⟩ := hthere n
    obtain ⟨xs, stage', cancelled', hnext, hdoes, hidle, hfits⟩ :=
      move_does (hturns _) (hmoves n) hnow
    refine ⟨xs, hdoes, hidle, ?_⟩
    rintro ys ⟨task', htask', hys⟩
    cases hnow.symm.trans htask'
    exact ⟨_, hnext, hfits ys hys⟩
  obtain ⟨items, hitems⟩ := Classical.skolem.1 haccounts
  refine ⟨items, fun n => (hitems n).1, fun n => (hitems n).2.1, fun n => ?_⟩
  induction n with
  | zero => exact ⟨task, htask, hstage ▸ fits_scheduled⟩
  | succ n ih =>
    rw [List.range_succ, List.flatMap_append, List.flatMap_singleton]
    exact (hitems n).2.2 _ ih

/-- A task has ended at a machine. -/
def Ended (i : Nat) (m : Machine) : Prop :=
  ∃ task : Task, m.tasks[i]? = some task ∧ task.stage.isDone = true

/-- A task is within so many steps of its end, and within so many turns of the next step. -/
def Ahead (i n k : Nat) (m : Machine) : Prop :=
  ∃ task : Task, m.tasks[i]? = some task ∧ task.stage.Within m n k

/-- In its own turn a task comes nearer to its end. -/
theorem turn_ahead (htasks : it.Respects Machine.KeepsTasks) (hdrains : it.Respects Machine.Drains)
    (h : Ahead i n k m) :
    Ended i ((it.runTask i).after m) ∨
      (∃ n' < n, ∃ k', Ahead i n' k' ((it.runTask i).after m)) ∨
      ∃ k' < k, Ahead i n k' ((it.runTask i).after m) := by
  obtain ⟨task, htask, hwithin⟩ := h
  cases hstage : task.stage with
  | scheduled =>
    rw [hstage] at hwithin
    cases hwithin
  | done r =>
    rw [after, runTask_done htask hstage]
    exact .inl ⟨task, htask, by rw [hstage]; rfl⟩
  | reading load =>
    have hgoing : task.stage.isDone = false := by
      rw [hstage]
      rfl
    obtain ⟨xs, stage, m', cancelled, hadvance, hafter, hentered, -, -⟩ :=
      turn_enters (fun m => htasks.keepsTasks.moves_advance task m i) htask hgoing
    have hahead : ∀ {n' k'}, stage.Within m' n' k' → Ahead i n' k' (m'.enterStage i stage) :=
      fun hw => ⟨_, hentered, stage_within_drains (enterStage_drains m' i stage) hw⟩
    rw [hafter]
    rcases advance_within hdrains hadvance hwithin with hdone | ⟨n', hlt, k', hw⟩ | ⟨k', hlt, hw⟩
    · exact .inl ⟨_, hentered, hdone⟩
    · exact .inr (.inl ⟨n', hlt, k', hahead hw⟩)
    · exact .inr (.inr ⟨k', hlt, hahead hw⟩)

/-- In its first turn a task ends, or it can be said how much there is to do. -/
theorem first_turn_ahead (htasks : it.Respects Machine.KeepsTasks)
    (htask : m.tasks[i]? = some task) (hstage : task.stage = .scheduled) :
    ∃ n k, Ahead i n k ((it.runTask i).after m) := by
  have hgoing : task.stage.isDone = false := by
    rw [hstage]
    rfl
  obtain ⟨xs, stage, m', cancelled, hadvance, hafter, hentered, -, -⟩ :=
    turn_enters (fun m => htasks.keepsTasks.moves_advance task m i) htask hgoing
  obtain ⟨n, k, hw⟩ := advance_first hstage hadvance
  rw [hafter]
  exact ⟨n, k, _, hentered, stage_within_drains (enterStage_drains m' i stage) hw⟩

/-- A task has turns again and again. -/
def Fair (i : Nat) (schedule : Nat → Move) : Prop := ∀ n, ∃ later, schedule (n + later) = .turn i

/-- A task that is within reach of its end and has turns again and again ends. The induction is on
the steps that are left, and within it on the turns before the next of them. -/
theorem ahead_ends (htasks : it.Respects Machine.KeepsTasks) (hdrains : it.Respects Machine.Drains)
    (hkeeps : ∀ n, (schedule n).Gentle Machine.KeepsTasks)
    (hgentle : ∀ n, (schedule n).Gentle Machine.Drains) (hfair : Fair i schedule) :
    ∀ (n k t : Nat), Ahead i n k (it.runs schedule m t) → ∃ t', Ended i (it.runs schedule m t') := by
  have hother : ∀ {n k : Nat} (t : Nat), schedule t ≠ .turn i →
      Ahead i n k (it.runs schedule m t) → Ahead i n k (it.runs schedule m (t + 1)) := by
    rintro n k t hturn ⟨task, htask, hwithin⟩
    obtain ⟨cancelled, hcancelled⟩ := move_task htasks (hkeeps t) hturn htask
    have hdrained : (it.runs schedule m t).Drains (it.runs schedule m (t + 1)) :=
      move_drains hdrains (hgentle t) _
    exact ⟨_, hcancelled, stage_within_drains hdrained hwithin⟩
  intro n
  induction n using Nat.strongRecOn with
  | ind n ihn =>
    intro k
    induction k using Nat.strongRecOn with
    | ind k ihk =>
      intro t h
      obtain ⟨later, hlater⟩ := hfair t
      obtain ⟨t', -, hturn, hahead⟩ := next_turn hother h later hlater
      have hnext : it.runs schedule m (t' + 1) = (it.runTask i).after (it.runs schedule m t') := by
        rw [runs, hturn, Move.act]
      rcases turn_ahead htasks hdrains hahead with hend | ⟨n', hlt, k', h'⟩ | ⟨k', hlt, h'⟩
      · exact ⟨t' + 1, hnext ▸ hend⟩
      · exact ihn n' hlt k' (t' + 1) (hnext ▸ h')
      · exact ihk k' hlt (t' + 1) (hnext ▸ h')

/-- A task that was started and has turns again and again ends. -/
theorem scheduled_ends (htasks : it.Respects Machine.KeepsTasks)
    (hdrains : it.Respects Machine.Drains)
    (hkeeps : ∀ n, (schedule n).Gentle Machine.KeepsTasks)
    (hgentle : ∀ n, (schedule n).Gentle Machine.Drains) (hfair : Fair i schedule)
    (htask : m.tasks[i]? = some task) (hstage : task.stage = .scheduled) :
    ∃ t, Ended i (it.runs schedule m t) := by
  have hother : ∀ t, schedule t ≠ .turn i →
      (∃ task : Task, (it.runs schedule m t).tasks[i]? = some task ∧ task.stage = .scheduled) →
      ∃ task : Task, (it.runs schedule m (t + 1)).tasks[i]? = some task ∧
        task.stage = .scheduled := by
    rintro t hturn ⟨task, htask, hstage⟩
    obtain ⟨cancelled, hcancelled⟩ := move_task htasks (hkeeps t) hturn htask
    exact ⟨_, hcancelled, hstage⟩
  obtain ⟨later, hlater⟩ := hfair 0
  obtain ⟨t, -, hturn, task', htask', hstage'⟩ :=
    next_turn (t := 0) hother ⟨task, htask, hstage⟩ later hlater
  obtain ⟨n, k, hahead⟩ := first_turn_ahead htasks htask' hstage'
  have hnext : it.runs schedule m (t + 1) = (it.runTask i).after (it.runs schedule m t) := by
    rw [runs, hturn, Move.act]
  exact ahead_ends htasks hdrains hkeeps hgentle hfair n k (t + 1) (hnext ▸ hahead)

end Schedules

end Interpreter

/-- What a load has announced and told by the time that it ends: its lines, to everyone and to the
callback; or a fault of loading, in the same way; or nothing, if another fault stopped it. -/
inductive Reported (xs : List Item) : Except Fault (Option (List Line)) → Prop
  | lines {ls : List Line} : xs.filterMap Item.ended? = [ls] → xs.filterMap Item.failed? = [] →
      xs.filterMap Item.told? = [.ok ls] → Reported xs (.ok (some ls))
  | fault {f : Fault} : f.isLoad = true → xs.filterMap Item.ended? = [] →
      xs.filterMap Item.failed? = [f] → xs.filterMap Item.told? = [.error f] →
        Reported xs (.ok none)
  | stopped {f : Fault} : f.isLoad = false → xs.filterMap Item.ended? = [] →
      xs.filterMap Item.failed? = [] → xs.filterMap Item.told? = [] → Reported xs (.error f)

namespace Interpreter

theorem Closes.reported {xs : List Item} {r : Except Fault (Option (List Line))}
    (h : Closes xs r) : Reported xs r := by
  cases h with
  | lines hxs =>
    refine .lines ?_ ?_ ?_
    · rw [List.filterMap_append, hxs.ended]
      rfl
    · rw [List.filterMap_append, hxs.failed]
      rfl
    · rw [List.filterMap_append, hxs.told]
      rfl
  | fault hxs hf =>
    refine .fault hf ?_ ?_ ?_
    · rw [List.filterMap_append, hxs.ended]
      rfl
    · rw [List.filterMap_append, hxs.failed]
      rfl
    · rw [List.filterMap_append, hxs.told]
      rfl
  | stopped hxs hf => exact .stopped hf hxs.ended hxs.failed hxs.told

variable {it : Interpreter} {m m' : Machine}

theorem call_inv {α : Type} {op : Operation} {body : Act α} {x : α}
    (h : it.call op body m = .ok x m') : body m = .ok x m' := by
  rw [call, require] at h
  cases hop : it.dialect.obstacle? op with
  | none =>
    rw [hop] at h
    exact h
  | some f =>
    rw [hop] at h
    cases h

/-- A load that is started becomes the last task, and nothing is called for it yet. -/
theorem schedule_inv {origin : Origin} {callback : Option String}
    (hstart : it.obstacleToStart? = none) (h : it.schedule origin callback m = .ok () m') :
    m'.journal = m.journal ∧ m'.tasks = m.tasks ++ [({ origin, callback } : Task)] := by
  have hbody := call_inv (call_inv h)
  rw [get_bind] at hbody
  split at hbody
  · obtain ⟨_, m₁, hlog, hbody⟩ := bind_eq_ok hbody
    cases hlog
    rw [hstart] at hbody
    cases hbody
    exact ⟨rfl, rfl⟩
  · rw [hstart] at hbody
    cases hbody
    exact ⟨rfl, rfl⟩

end Interpreter

/-- Handlers fail, and the callback makes the interpreter forget its modal command. -/
def frank : Interpreter where
  host := { Host.silent with
    handler := fun _ _ => throw .noLoop
    callback := fun _ _ => Interpreter.reset }

/-- Turns of the first task and other work take turns. -/
def turnAbout (n : Nat) : Move := if n % 2 = 0 then .turn 0 else .aside Interpreter.reset

theorem respects_frank {R : Machine → Machine → Prop} (h : Steady R)
    (hreset : ∀ m, R m { m with modal := "" }) : frank.Respects R where
  handler _ _ := h.stops _
  method _ args := h.nothing args
  listener _ _ := h.nothing ()
  callback _ _ := hreset
  answer _ _ _ hop := by cases hop

theorem gentle_turnAbout {R : Machine → Machine → Prop} (hreset : ∀ m, R m { m with modal := "" })
    (n : Nat) : (turnAbout n).Gentle R := by
  rw [turnAbout]
  split
  · trivial
  · exact hreset

theorem turnAbout_aside {n : Nat} (h : turnAbout n ≠ .turn 0) :
    turnAbout n = .aside Interpreter.reset := by
  rw [turnAbout] at h ⊢
  split at h
  · exact absurd rfl h
  · rename_i hodd
    exact if_neg hodd

theorem fair_turnAbout : Interpreter.Fair 0 turnAbout := by
  intro n
  refine ⟨n % 2, ?_⟩
  rw [turnAbout, if_pos (by omega)]

/-- The lines that are loaded. -/
def frankLines : List Line :=
  [{ text := "G1 X1", words := [⟨"G", .int 1⟩, ⟨"X", .int 1⟩], sourceLine := some 1 },
   { text := "G0", words := [⟨"G", .int 0⟩], sourceLine := some 2 }]

/-- What a stage has ended with. -/
def Stage.result? : Stage → Option (Except Fault (Option (List Line)))
  | .done r => some r
  | _ => none

theorem Stage.map_eq_done {task? : Option Task} {r : Except Fault (Option (List Line))}
    (h : (task?.map Task.stage).bind result? = some r) : task?.map Task.stage = some (.done r) := by
  obtain ⟨stage, hstage, hresult⟩ := Option.bind_eq_some_iff.1 h
  rw [hstage]
  cases stage with
  | done r' =>
    cases hresult
    rfl
  | _ => cases hresult

/-- The load is over after the third turn of its task. -/
theorem runs_frank :
    let m₁ := (frank.schedule (.text (.text "G1 X1\nG0")) (some "done")).after {}
    ((frank.runs turnAbout m₁ 5).tasks[0]?.map Task.stage) =
      some (.done (.ok (some frankLines))) := by
  intro m₁
  have he : encodingNamed frank.encoding = .ok .utf8 := encodingNamed_standard
  refine Stage.map_eq_done ?_
  simp only [m₁, Interpreter.runs, Move.act, turnAbout]
  unfold Interpreter.runTask Interpreter.advance Interpreter.startTask Interpreter.begin
  rw [he]
  decide +kernel

end Gcode
