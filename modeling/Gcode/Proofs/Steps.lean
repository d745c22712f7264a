import Gcode.Proofs.Tasks

/-!
Loads step by step. A load either takes data from its source or receives the data that it took,
until it is over; this is how far it has come, whatever turns it is given. Main statements: a turn
of a load is a number of such steps, or there is one turn less to wait for; and a load that gives up
its turn has a source to go on with (`begin_steps`, `resume_steps`).
-/

namespace Gcode

open Act

/-- How far a load has come: its next read is due, it has got the data of a read, or it is over. -/
inductive Phase where
  | due (load : Load)
  | got (load : Load) (data : Literal)
  | ended (outcome : Outcome)

/-- A load without what it waits for. -/
def Load.rested (load : Load) : Load := { load with wait := .turns 0 }

/-- How far a load has come that gave up its turn. -/
def Load.phase (load : Load) : Phase :=
  match load.wait with
  | .taken data => .got load.rested data
  | .turns _ => .due load.rested

namespace Interpreter

variable {it : Interpreter} {m m' m'' : Machine} {load load' : Load} {src : Source} {s : Stream}
  {n k : Nat} {p p' p'' : Phase}

/-- One step of a load: a read, or what the data of a read leads to. -/
inductive Step (it : Interpreter) : Phase → Machine → Phase → Machine → Prop
  | taken {load : Load} {data : Literal} {m m' : Machine} :
      take load.source it.chunkSize m = .ok data m' → Step it (.due load) m (.got load data) m'
  | unread {load : Load} {f : Fault} {m m' : Machine} :
      take load.source it.chunkSize m = .error f m' →
        Step it (.due load) m (.ended (.error f)) m'
  | received {load load' : Load} {data : Literal} {m m' : Machine} :
      it.receive load data m = .ok (.inl load') m' → Step it (.got load data) m (.due load') m'
  | finished {load : Load} {data : Literal} {ls : List Line} {m m' : Machine} :
      it.receive load data m = .ok (.inr ls) m' → Step it (.got load data) m (.ended (.ok ls)) m'
  | failed {load : Load} {data : Literal} {f : Fault} {m m' : Machine} :
      it.receive load data m = .error f m' → Step it (.got load data) m (.ended (.error f)) m'

/-- A number of steps. -/
inductive Steps (it : Interpreter) : Nat → Phase → Machine → Phase → Machine → Prop
  | none {p : Phase} {m : Machine} : Steps it 0 p m p m
  | more {n : Nat} {p p' p'' : Phase} {m m' m'' : Machine} : it.Step p m p' m' →
      Steps it n p' m' p'' m'' → Steps it (n + 1) p m p'' m''

theorem Step.steps (h : it.Step p m p' m') : it.Steps 1 p m p' m' := .more h .none

/-- What a turn comes to, and how far its load has come then. -/
inductive Comes : EStateM.Result Fault Machine Turn → Phase → Machine → Prop
  | waiting {load : Load} {m : Machine} : Comes (.ok (.waiting load) m) load.phase m
  | finished {ls : List Line} {m : Machine} : Comes (.ok (.finished ls) m) (.ended (.ok ls)) m
  | failed {f : Fault} {m : Machine} : Comes (.error f m) (.ended (.error f)) m

/-- A load that gives up its turn has a source to go on with. -/
def Sourced (r : EStateM.Result Fault Machine Turn) : Prop :=
  ∀ load m, r = .ok (.waiting load) m → ∃ src s, m.Reads load.source src s

theorem sourced_waiting (hm : m.Reads load.source src s) : Sourced (.ok (.waiting load) m) := by
  intro load' m' h
  cases h
  exact ⟨src, s, hm⟩

theorem sourced_finished {ls : List Line} : Sourced (.ok (.finished ls) m) := by
  intro load' m' h
  cases h

theorem sourced_error {f : Fault} : Sourced (.error f m) := by
  intro load' m' h
  cases h

/-- What a load waits for makes no difference to what it receives. -/
theorem receive_rested {data : Literal} {r : Load ⊕ List Line}
    (h : it.receive load data m = .ok r m') :
    it.receive load.rested data m = .ok (r.map Load.rested id) m' := by
  rw [Load.rested, receive_wait, bind_ok h]
  rfl

theorem receive_rested_error {data : Literal} {f : Fault}
    (h : it.receive load data m = .error f m') :
    it.receive load.rested data m = .error f m' := by
  rw [Load.rested, receive_wait, bind_error h]

/-- What is left of a turn once data has been received takes steps if the further reads do. -/
theorem received_steps (load : Load) (data : Literal) (m : Machine)
    (rest : Load ⊕ List Line → Act Turn) (hdone : ∀ ls, rest (.inr ls) = pure (.finished ls))
    (hmore : ∀ l m, ∃ n p' m', it.Steps n (.due l.rested) m p' m' ∧
      Comes (rest (.inl l) m) p' m' ∧ Sourced (rest (.inl l) m)) :
    ∃ n p' m', it.Steps (n + 1) (.got load.rested data) m p' m' ∧
      Comes ((it.receive load data >>= rest) m) p' m' ∧
      Sourced ((it.receive load data >>= rest) m) := by
  cases hr : it.receive load data m with
  | error f m' =>
    rw [bind_error hr]
    exact ⟨0, _, m', (Step.failed (receive_rested_error hr)).steps, .failed, sourced_error⟩
  | ok r m' =>
    have hrested := receive_rested hr
    rw [bind_ok hr]
    cases r with
    | inr ls =>
      rw [hdone]
      exact ⟨0, _, m', (Step.finished hrested).steps, .finished, sourced_finished⟩
    | inl l =>
      obtain ⟨n, p', m'', hsteps, hcomes, hsourced⟩ := hmore l m'
      exact ⟨n, p', m'', .more (.received hrested) hsteps, hcomes, hsourced⟩

/-- What is left of a turn once a read is due takes steps if the further reads do. -/
theorem due_steps (load : Load) (m : Machine) (w : Wait) (rest : Load ⊕ List Line → Act Turn)
    (hdone : ∀ ls, rest (.inr ls) = pure (.finished ls))
    (hmore : ∀ l m, ∃ n p' m', it.Steps n (.due l.rested) m p' m' ∧
      Comes (rest (.inl l) m) p' m' ∧ Sourced (rest (.inl l) m)) :
    ∃ n p' m', it.Steps (n + 1) (.due load.rested) m p' m' ∧
      Comes ((take load.source it.chunkSize >>= fun data =>
        it.receive { load with wait := w } data >>= rest) m) p' m' ∧
      Sourced ((take load.source it.chunkSize >>= fun data =>
        it.receive { load with wait := w } data >>= rest) m) := by
  cases htake : take load.source it.chunkSize m with
  | error f m' =>
    have hunread : it.Step (.due load.rested) m (.ended (.error f)) m' := .unread htake
    rw [bind_error htake]
    exact ⟨0, _, m', hunread.steps, .failed, sourced_error⟩
  | ok data m' =>
    rw [bind_ok htake]
    obtain ⟨n, p', m'', hsteps, hcomes⟩ :=
      received_steps { load with wait := w } data m' rest hdone hmore
    exact ⟨n + 1, p', m'', .more (.taken htake) hsteps, hcomes⟩

/-- To begin the next read takes steps. The induction is on the reads that one turn is allowed. -/
theorem proceed_steps (limit : Nat) (load : Load) (m : Machine) : ∃ n p' m',
    it.Steps n (.due load.rested) m p' m' ∧ Comes (it.proceed limit load m) p' m' ∧
      Sourced (it.proceed limit load m) := by
  by_cases h : ∃ src s, m.Reads load.source src s
  · obtain ⟨src, s, hm⟩ := h
    rcases hw : s.waits with _ | _ | left
    · rw [proceed_at_once hm hw]
      cases htake : take load.source it.chunkSize m with
      | error f m' =>
        have hunread : it.Step (.due load.rested) m (.ended (.error f)) m' := .unread htake
        rw [bind_error htake]
        exact ⟨1, _, m', hunread.steps, .failed, sourced_error⟩
      | ok data m' =>
        have htaken : it.Step (.due load.rested) m (.got load.rested data) m' := .taken htake
        obtain ⟨s', -, rfl⟩ := take_inv hm htake
        rw [bind_ok htake]
        exact ⟨1, _, _, htaken.steps, .waiting, sourced_waiting (hm.updateStream s')⟩
    · cases limit with
      | zero =>
        rw [proceed_due hm hw]
        exact ⟨0, _, m, .none, .waiting, sourced_waiting hm⟩
      | succ limit =>
        rw [proceed_in_turn hm hw]
        obtain ⟨n, hsteps⟩ := due_steps load m load.wait (it.proceedRest limit) (fun _ => rfl)
          (proceed_steps limit)
        exact ⟨n + 1, hsteps⟩
    · rw [proceed_later hm hw]
      exact ⟨0, _, m, .none, .waiting, sourced_waiting hm⟩
  · have hnone : ∀ src s, ¬ m.Reads load.source src s := fun src s hm => h ⟨src, s, hm⟩
    have hunread : it.Step (.due load.rested) m (.ended (.error .noSource)) m :=
      .unread (missing_eq hnone _)
    rw [proceed_missing hnone]
    exact ⟨1, _, m, hunread.steps, .failed, sourced_error⟩

/-- A load that has data goes on in the same turn with further reads. -/
theorem advanceRest_steps (load : Load) (m : Machine) : ∃ n p' m',
    it.Steps n (.due load.rested) m p' m' ∧ Comes (it.advanceRest (.inl load) m) p' m' ∧
      Sourced (it.advanceRest (.inl load) m) := by
  obtain ⟨limit, hlimit⟩ := goesOn_advanceRest load m
  rw [hlimit]
  exact proceed_steps limit load m

/-- A load that was prepared takes steps in its first turn. -/
theorem begin_steps {h : Handle} {total : Literal} (hprepare : it.prepare h total m = .ok load m') :
    ∃ n p' m'', it.Steps n (.due load.rested) m' p' m'' ∧ Comes (it.begin h total m) p' m'' ∧
      Sourced (it.begin h total m) := by
  rw [begin_eq, bind_ok hprepare]
  exact advanceRest_steps load m'

/-- A load that gave up its turn takes steps in the next one, or there is one turn less to wait for.
-/
theorem resume_steps (load : Load) (m : Machine) :
    (∃ n p' m', it.Steps (n + 1) load.phase m p' m' ∧ Comes (it.resume load m) p' m' ∧
      Sourced (it.resume load m)) ∨
    ∃ left, load.wait = .turns (left + 1) ∧
      it.resume load m = .ok (.waiting { load with wait := .turns left }) m := by
  obtain ⟨source, reader, decoder, lines, wait⟩ := load
  cases wait with
  | taken data =>
    refine Or.inl ?_
    rw [show it.resume ⟨source, reader, decoder, lines, .taken data⟩ = _ from
      resume_taken ⟨source, reader, decoder, lines, .turns 0⟩ data]
    exact received_steps ⟨source, reader, decoder, lines, .taken data⟩ data m
      it.advanceRest (fun _ => rfl) advanceRest_steps
  | turns left =>
    cases left with
    | zero =>
      refine Or.inl ?_
      rw [show it.resume ⟨source, reader, decoder, lines, .turns 0⟩ = _ from
        resume_due ⟨source, reader, decoder, lines, .turns 0⟩]
      exact due_steps ⟨source, reader, decoder, lines, .turns 0⟩ m (.turns 0)
        it.advanceRest (fun _ => rfl) advanceRest_steps
    | succ left => exact Or.inr ⟨left, rfl, rfl⟩

end Interpreter

end Gcode
