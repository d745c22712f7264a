import Gcode.Proofs.Conduct
import Gcode.Proofs.WellFormed

/-!
The history of an interpreter, change by change. What is written down of a command is written down
while its code is the modal command: what is said about dispatching, and the calls of host code. All
that is handed over is well-formed. The modal command is set to well-formed codes only, which is
written down too, and made empty by nothing but a reset (`Interpreter.Change`). Host code has to keep
to that only when it is called in this way; otherwise it may do anything (`Interpreter.Modest`). Main
statement: lines that are well-formed make history when they are carried out
(`Modest.moves_deliver`).
-/

namespace Gcode

open Act

namespace Act

variable {α β : Type} {R : Machine → Machine → Prop} {a : Act α} {f : α → Act β} {Q : α → Prop}
  {Q' : β → Prop}

/-- An action that respects a relation and gives values of a kind only, if it gives one. -/
structure Yields (R : Machine → Machine → Prop) (Q : α → Prop) (a : Act α) : Prop where
  moves : a.Moves R
  value : ∀ m x m', a m = .ok x m' → Q x

theorem Moves.yields (h : a.Moves R) : a.Yields R fun _ => True := ⟨h, fun _ _ _ _ => trivial⟩

theorem yields_get {k : Machine → Act β} (hk : ∀ m, (k m).Yields R Q') : (get >>= k).Yields R Q' :=
  ⟨looks fun m => (hk m).moves, fun m x m' h => (hk m).value m x m' h⟩

theorem Yields.attempts (h : a.Yields R Q) : a.attempt.Yields R fun r => ∀ x, r = .ok x → Q x := by
  refine ⟨Act.attempts h.moves, fun m r m' hr x hx => ?_⟩
  cases ha : a m with
  | error e m₁ =>
    rw [attempt_error ha] at hr
    cases hr
    cases hx
  | ok y m₁ =>
    rw [attempt_ok ha] at hr
    cases hr
    cases hx
    exact h.value m x _ ha

theorem Yields.leaving (h : a.Yields R Q) : a.leaving.Yields R Q := by
  refine ⟨fun m => ?_, fun m x m' hx => ?_⟩
  · cases ha : a m with
    | ok x m₁ =>
      rw [after, leaving_ok ha]
      exact h.moves.of_ok ha
    | error e m₁ =>
      rw [after, leaving_error ha]
      exact h.moves.of_error ha
  · cases ha : a m with
    | ok y m₁ =>
      cases (leaving_ok ha).symm.trans hx
      exact h.value m _ _ ha
    | error e m₁ => cases (leaving_error ha).symm.trans hx

namespace Steady

theorem gives_back (h : Steady R) {x : α} (hx : Q x) : (pure x : Act α).Yields R Q :=
  ⟨h.nothing x, fun _ _ _ heq => by cases heq; exact hx⟩

theorem fails (h : Steady R) (e : Fault) : (throw e : Act α).Yields R Q :=
  ⟨h.stops e, fun _ _ _ heq => by cases heq⟩

/-- What follows need only take values of the kind that the first action gives. -/
theorem leads (h : Steady R) (ha : a.Yields R Q) (hf : ∀ x, Q x → (f x).Yields R Q') :
    (a >>= f).Yields R Q' := by
  refine ⟨fun m => ?_, fun m y m' hy => ?_⟩
  · cases hm : a m with
    | error e m₁ =>
      rw [after, bind_error hm]
      exact ha.moves.of_error hm
    | ok x m₁ =>
      rw [after, bind_ok hm]
      exact h.trans (ha.moves.of_ok hm) ((hf x (ha.value m x m₁ hm)).moves m₁)
  · obtain ⟨x, m₁, hx, hy⟩ := bind_eq_ok hy
    exact (hf x (ha.value m x m₁ hx)).value m₁ y m' hy

theorem yields_call (h : Steady R) (it : Interpreter) (op : Operation) (ha : a.Yields R Q) :
    (it.call op a).Yields R Q :=
  h.leads (h.requires it op).yields fun _ _ => ha

end Steady

end Act

/-! ### Changes -/

/-- What is handed over is well-formed as far as it consists of lines. -/
def Payload.WellFormed : Payload → Prop
  | .line l => l.WellFormed
  | .results ls => ∀ l ∈ ls, l.WellFormed
  | _ => True

/-- The lines of a load or of its result are well-formed. -/
def Stage.WellFormed : Stage → Prop
  | .scheduled => True
  | .reading load => ∀ l ∈ load.lines, l.WellFormed
  | .done result => ∀ ls, result = .ok (some ls) → ∀ l ∈ ls, l.WellFormed

/-- There is no modal command or a well-formed one, and the loads have well-formed lines. -/
structure Machine.Sound (m : Machine) : Prop where
  modal : m.modal = "" ∨ IsCode m.modal
  tasks : ∀ task ∈ m.tasks, task.stage.WellFormed

/-- What was said of commands. -/
def Machine.dealings (m : Machine) : List Log.Record := m.log.filter (·.channel.tellsOfCommands)

/-- Writes down what is said about dispatching, and calls of host code. -/
def Machine.note (m : Machine) (said : List String) (calls : List Entry) : Machine :=
  { m with
    log := m.log ++ said.map fun message => ⟨.trace, .dispatch, message⟩
    journal := m.journal ++ calls }

/-- Makes a code the modal command, and says so. -/
def Machine.resolveTo (m : Machine) (code : String) : Machine :=
  { m with
    modal := code
    log := m.log ++ [⟨.trace, .modal,
      "modal_change from=" ++ (if m.modal.isEmpty then "-" else m.modal) ++ " to=" ++ code⟩] }

namespace Interpreter

/-- What may be written down. A command is called by the code that is the modal command now. -/
inductive Notes (it : Interpreter) (m : Machine) : List String → List Entry → Prop
  /-- There is no command. -/
  | skipped {args : Args} : m.modal = "" → args.WellFormed →
      Notes it m ["dispatch_skip reason=no_modal_command args=" ++ (Args.toLiteral args).render] []
  | handled {id : String} {args : Args} : m.modal ≠ "" →
      m.handlers.get? m.modal = some (.callable id) → args.WellFormed →
      Notes it m ["dispatch_handler code=" ++ m.modal] [.handler id args]
  | called {name : String} {mt : Method} {args : Args} : m.modal ≠ "" →
      it.dialect.attribute? m.modal = some (name, .method mt) → args.WellFormed →
      Notes it m ["dispatch_method code=" ++ m.modal ++ " method=" ++ name] [.method mt args]
  /-- What the command leads to is no method. -/
  | led {name : String} {a : Attribute} : m.modal ≠ "" →
      it.dialect.attribute? m.modal = some (name, a) → (∀ mt, a ≠ .method mt) →
      Notes it m ["dispatch_method code=" ++ m.modal ++ " method=" ++ name] []
  | unhandled : m.modal ≠ "" → Notes it m ["dispatch_unhandled code=" ++ m.modal] []
  | told {id : String} {payload : List Payload} : (∀ x ∈ payload, x.WellFormed) →
      Notes it m [] [.listener id payload]
  | completed {id : String} {outcome : Outcome} :
      (∀ ls, outcome = .ok ls → ∀ l ∈ ls, l.WellFormed) → Notes it m [] [.callback id outcome]
  | lineDone {id : String} {index : Nat} {l : Line} : l.WellFormed →
      Notes it m [] [.lineDone id index l m.modal]
  /-- Host code reports of its own work. -/
  | emitted (heard : Bool) : Notes it m [] [.emitted heard]
  | loaded (count : Nat) : Notes it m [] [.loaded count]

/-- One change of the machine that the library makes. -/
inductive Change (it : Interpreter) (m : Machine) : Machine → Prop
  /-- Anything else may change. -/
  | silent {m' : Machine} : m'.modal = m.modal → m'.journal = m.journal →
      m'.dealings = m.dealings → (∀ task ∈ m'.tasks, task.stage.WellFormed) → Change it m m'
  | noted {said : List String} {calls : List Entry} : it.Notes m said calls →
      Change it m (m.note said calls)
  | resolved {code : String} : IsCode code → Change it m (m.resolveTo code)

/-- One change of the machine that host code makes: one that the library makes for it, or a reset.
-/
inductive HostChange (it : Interpreter) (m : Machine) : Machine → Prop
  | change {m' : Machine} : it.Change m m' → HostChange it m m'
  | reset : HostChange it m { m with modal := "" }

/-- What host code does. -/
def HostHistory (it : Interpreter) (m m' : Machine) : Prop :=
  m.Sound → Relation.ReflTransGen it.HostChange m m'

/-- Host code has just been called. -/
def Calling (it : Interpreter) (m : Machine) (x : Entry) : Prop :=
  ∃ m₀ said, it.Notes m₀ said [x] ∧ m = m₀.note said [x]

/-- What happens next: the library makes a change, or host code that has just been called does what
it does. -/
inductive Occurs (it : Interpreter) (m : Machine) : Machine → Prop
  | library {m' : Machine} : it.Change m m' → Occurs it m m'
  | host {x : Entry} : it.Calling m x →
      Relation.ReflTransGen it.HostChange m ((x.call it).after m) →
        Occurs it m ((x.call it).after m)

/-- The machine comes to be as it is by one thing after another that happens. -/
def History (it : Interpreter) (m m' : Machine) : Prop :=
  m.Sound → Relation.ReflTransGen it.Occurs m m'

/-- Host code makes such changes only when it is called properly. A handler leaves the modal command
and its arguments as they are, and no command makes the interpreter anew. -/
structure Modest (it : Interpreter) : Prop where
  handler : ∀ m id args, it.Calling m (.handler id args) →
    it.HostHistory m ((it.host.handler id args).after m)
  handler_modal : ∀ m id args, it.Calling m (.handler id args) →
    ((it.host.handler id args).after m).modal = m.modal
  handler_args : ∀ m id args args' m', it.Calling m (.handler id args) →
    it.host.handler id args m = .ok args' m' → args' = args
  method : ∀ m mt args, it.Calling m (.method mt args) →
    it.HostHistory m ((it.host.method mt args).after m)
  listener : ∀ m id payload, it.Calling m (.listener id payload) →
    it.HostHistory m ((it.host.listener id payload).after m)
  callback : ∀ m id outcome, it.Calling m (.callback id outcome) →
    it.HostHistory m ((it.host.callback id outcome).after m)
  lineDone : ∀ m id index l modal, it.Calling m (.lineDone id index l modal) →
    it.HostHistory m ((it.host.lineDone id l index).after m)
  renew : ∀ code name, it.dialect.attribute? code ≠ some (name, .operation .create)

variable {it : Interpreter} {m m' m'' : Machine} {code : String}

theorem Change.sound (h : it.Change m m') (hm : m.Sound) : m'.Sound := by
  cases h with
  | silent hmodal _ _ htasks => exact ⟨by rw [hmodal]; exact hm.modal, htasks⟩
  | noted => exact ⟨hm.modal, hm.tasks⟩
  | resolved hcode => exact ⟨.inr hcode, hm.tasks⟩

/-- The library never makes the modal command empty. -/
theorem Change.modal_ne (h : it.Change m m') (hm : m.modal ≠ "") : m'.modal ≠ "" := by
  cases h with
  | silent hmodal => rwa [hmodal]
  | noted => exact hm
  | resolved hcode => exact hcode.ne_empty

theorem HostChange.sound (h : it.HostChange m m') (hm : m.Sound) : m'.Sound := by
  cases h with
  | change hchange => exact hchange.sound hm
  | reset => exact ⟨.inl rfl, hm.tasks⟩

/-- Only a reset makes the modal command empty. -/
theorem HostChange.eq_reset (h : it.HostChange m m') (hm : m.modal ≠ "") (hm' : m'.modal = "") :
    m' = { m with modal := "" } := by
  cases h with
  | change hchange => exact absurd hm' (hchange.modal_ne hm)
  | reset => rfl

theorem sound_of_hostChanges (h : Relation.ReflTransGen it.HostChange m m') (hm : m.Sound) :
    m'.Sound := by
  induction h with
  | refl => exact hm
  | tail _ hchange ih => exact hchange.sound ih

theorem sound_of_history (h : Relation.ReflTransGen it.Occurs m m') (hm : m.Sound) : m'.Sound := by
  induction h with
  | refl => exact hm
  | tail _ hhappens ih =>
    cases hhappens with
    | library hchange => exact hchange.sound ih
    | host _ hchanges => exact sound_of_hostChanges hchanges ih

/-! ### Histories -/

theorem History.of_change (h : m.Sound → it.Change m m') : it.History m m' :=
  fun hm => .single (.library (h hm))

/-- What changes neither the modal command, nor what was written down, nor the tasks. -/
theorem History.of_eq (hmodal : m'.modal = m.modal) (hjournal : m'.journal = m.journal)
    (hdealings : m'.dealings = m.dealings) (htasks : m'.tasks = m.tasks) : it.History m m' :=
  .of_change fun hm => .silent hmodal hjournal hdealings (by rw [htasks]; exact hm.tasks)

theorem History.noted {said : List String} {calls : List Entry} (h : it.Notes m said calls) :
    it.History m (m.note said calls) :=
  .of_change fun _ => .noted h

/-- Something is said about dispatching, and no call is made. -/
theorem History.dealt {message : String} (h : it.Notes m [message] []) :
    it.History m { m with log := m.log ++ [⟨.trace, .dispatch, message⟩] } := by
  have hnoted := History.noted h
  rwa [Machine.note, List.append_nil] at hnoted

theorem steady_history : Steady it.History where
  refl _ _ := .refl
  trans h h' hm := (h hm).trans (h' (sound_of_history (h hm) hm))

theorem dealings_append {m : Machine} {records : List Log.Record}
    (h : ∀ r ∈ records, r.channel.tellsOfCommands = false) :
    Machine.dealings { m with log := m.log ++ records } = m.dealings := by
  have hnone : records.filter (·.channel.tellsOfCommands) = [] :=
    List.filter_eq_nil_iff.2 fun r hr => by simp [h r hr]
  rw [Machine.dealings, List.filter_append, hnone, List.append_nil]
  rfl

/-- All that is done to sources and streams makes no difference. -/
theorem upkeep_history : Upkeep it.History where
  toSteady := steady_history
  log _ _ h := .of_eq rfl rfl (dealings_append h) rfl
  read _ _ _ _ _ := .of_eq rfl rfl rfl rfl
  close _ _ := .of_eq rfl rfl rfl rfl
  opens _ _ := .of_eq rfl rfl rfl rfl
  wraps _ _ := .of_eq rfl rfl rfl rfl
  total _ _ _ := .of_eq rfl rfl rfl rfl
  count m is n := by
    induction is generalizing m with
    | nil => exact steady_history.refl m
    | cons i is ih =>
      have hone : it.History m (m.updateSource i fun s => { s with consumed := s.consumed + n }) :=
        .of_eq rfl rfl rfl rfl
      exact steady_history.trans hone (ih _)

/-- Host code that has just been called does what it does. -/
theorem History.hosted {x : Entry} (hx : it.Calling m x)
    (h : it.HostHistory m ((x.call it).after m)) : it.History m ((x.call it).after m) :=
  fun hm => .single (.host hx (h hm))

/-- A call is entered and made. -/
theorem History.called {x : Entry} (hx : it.Notes m [] [x])
    (hcall : ∀ m', it.Calling m' x → it.HostHistory m' ((x.call it).after m')) :
    it.History m ((enter x >>= fun _ => x.call it).after m) := by
  have hentered : m.note [] [x] = { m with journal := m.journal ++ [x] } := by
    rw [Machine.note, List.map_nil, List.append_nil]
  have hcalling : it.Calling (m.note [] [x]) x := ⟨m, [], hx, rfl⟩
  have hcalled := steady_history.trans (.noted hx) (.hosted hcalling (hcall _ hcalling))
  rwa [hentered] at hcalled

/-- A code that is well-formed or that of the modal command becomes the modal command. -/
theorem setModal_history (it : Interpreter) {m : Machine} (hcode : IsCode code ∨ code = m.modal) :
    ∃ m', setModal code m = .ok () m' ∧ it.History m m' ∧ m'.modal = code := by
  by_cases hsame : code = m.modal
  · refine ⟨{ m with modal := code }, ?_, .of_eq hsame rfl rfl rfl, rfl⟩
    rw [setModal, get_bind, if_neg (not_not.2 hsame)]
    rfl
  · refine ⟨m.resolveTo code, ?_, .of_change fun _ => .resolved (hcode.resolve_right hsame), rfl⟩
    rw [setModal, get_bind, if_pos hsame]
    rfl

/-! ### Commands -/

namespace Modest

variable {args : Args} {c : Command} {g : Group} {payload : List Payload}

/-- Well-formed data is handed to listeners. -/
theorem hearing (hit : it.Modest) (hpayload : ∀ x ∈ payload, x.WellFormed) :
    it.Hearing payload it.History :=
  { upkeep_history with
    told := fun id _ =>
      .called (x := .listener id payload) (.told hpayload) fun m => hit.listener m id payload
    spend := fun _ _ _ => .of_eq rfl rfl rfl rfl }

theorem moves_complete (hit : it.Modest) (callback : Option String) (outcome : Outcome)
    (houtcome : ∀ ls, outcome = .ok ls → ∀ l ∈ ls, l.WellFormed) :
    (it.complete callback outcome).Moves it.History := by
  cases callback with
  | none => exact steady_history.nothing ()
  | some id =>
    exact fun _ => .called (x := .callback id outcome) (.completed houtcome) fun m =>
      hit.callback m id outcome

theorem moves_schedule (hit : it.Modest) (origin : Origin) (callback : Option String) :
    (it.schedule origin callback).Moves it.History := by
  refine upkeep_history.toLogging.moves_schedule (fun m => .of_change fun hm => ?_) fun f =>
    hit.moves_complete callback _ nofun
  refine .silent rfl rfl rfl fun task htask => ?_
  rcases List.mem_append.1 htask with htask | htask
  · exact hm.tasks task htask
  · cases List.mem_singleton.1 htask
    trivial

theorem moves_answer (hit : it.Modest) {code name : String} {op : Operation}
    (hop : it.dialect.attribute? code = some (name, .operation op)) (args : Args) :
    (it.answer op args).Moves it.History := by
  refine steady_history.moves_answer (fun hcreate => ?_) (fun x => ?_) fun origin =>
    hit.moves_schedule origin none
  · subst hcreate
    exact absurd hop (hit.renew code name)
  · exact (hit.hearing (by simp [Payload.WellFormed])).moves_report _

/-- A handler that is called for a code, or nothing. -/
theorem callHandler_cases (it : Interpreter) (code : String) (args : Args) (m : Machine) :
    (∃ id, m.handlers.get? code = some (.callable id) ∧ it.callHandler code args m =
      (it.host.handler id args >>= fun args => pure (1, args))
        (m.note ["dispatch_handler code=" ++ code] [.handler id args])) ∨
    it.callHandler code args m = .ok (0, args) m := by
  rw [callHandler, get_bind]
  rcases m.handlers.get? code with _ | ⟨id⟩ | _
  · exact .inr rfl
  · exact .inl ⟨id, rfl, rfl⟩
  · exact .inr rfl

theorem hosts_handler (hit : it.Modest) {id : String} (h : it.Calling m (.handler id args)) :
    it.History m ((it.host.handler id args).after m) := by
  have hhosted := hit.handler m id args h
  rw [← after_dropped] at hhosted ⊢
  exact .hosted h hhosted

theorem hosts_method (hit : it.Modest) {mt : Method} (h : it.Calling m (.method mt args)) :
    it.History m ((it.host.method mt args).after m) := by
  have hhosted := hit.method m mt args h
  rw [← after_dropped] at hhosted ⊢
  exact .hosted h hhosted

/-- A handler is called by the modal command. -/
theorem history_callHandler (hit : it.Modest) (hargs : args.WellFormed) (hm : m.modal ≠ "") :
    it.History m ((it.callHandler m.modal args).after m) := by
  rcases callHandler_cases it m.modal args m with ⟨id, hget, heq⟩ | heq
  · have hnotes : Notes it m _ _ := .handled hm hget hargs
    rw [after, heq]
    exact steady_history.trans (.noted hnotes)
      (steady_history.follows_at (hit.hosts_handler ⟨m, _, hnotes, rfl⟩) fun _ =>
        steady_history.nothing _)
  · rw [after, heq]
    exact steady_history.refl m

/-- A handler that returns leaves the modal command in force. -/
theorem callHandler_ok (hit : it.Modest) (hargs : args.WellFormed) (hm : m.modal ≠ "")
    {r : Nat × Args} (h : it.callHandler m.modal args m = .ok r m') :
    m'.modal = m.modal ∧ r.2 = args := by
  rcases callHandler_cases it m.modal args m with ⟨id, hget, heq⟩ | heq
  · have hcalling : it.Calling (m.note ["dispatch_handler code=" ++ m.modal] [.handler id args])
        (.handler id args) := ⟨m, _, .handled hm hget hargs, rfl⟩
    obtain ⟨args', m₁, hok, hr⟩ := bind_eq_ok (heq.symm.trans h)
    have hmodal := hit.handler_modal _ id args hcalling
    rw [after, hok] at hmodal
    cases hr
    exact ⟨hmodal, hit.handler_args _ id args _ _ hcalling hok⟩
  · cases heq.symm.trans h
    exact ⟨rfl, rfl⟩

/-- A method is called by the modal command, and so is what stands in front of it. -/
theorem history_callMethod (hit : it.Modest) (hargs : args.WellFormed) (hm : m.modal ≠ "") :
    it.History m ((it.callMethod m.modal args).after m) := by
  have h : Steady it.History := steady_history
  rw [callMethod]
  split
  · rename_i name mt hattribute
    have hnotes := Notes.called hm hattribute hargs
    exact h.trans (.noted hnotes)
      (h.follows_at (hit.hosts_method ⟨m, _, hnotes, rfl⟩) fun _ => h.nothing _)
  · rename_i name op hattribute
    exact h.follows_at (.dealt (.led hm hattribute (by rintro _ ⟨⟩))) fun _ =>
      h.follows (hit.moves_answer hattribute args) fun _ => h.nothing _
  · rename_i name refusal hattribute
    refine h.follows_at (.dealt (.led hm hattribute (by rintro _ ⟨⟩))) fun _ => ?_
    split
    · exact h.stops _
    · exact h.nothing _
  · dsimp only
    split
    · exact h.refl m
    · exact h.refl m
  · exact h.refl m

/-- If nothing is called for a code, nothing is done. -/
theorem callMethod_none {r : Nat × Args} (h : it.callMethod code args m = .ok r m')
    (hr : r.1 = 0) : m' = m := by
  rw [callMethod] at h
  rcases hattribute : it.dialect.attribute? code with _ | ⟨name, a⟩
  · rw [hattribute] at h
    cases h
    rfl
  rw [hattribute] at h
  cases a with
  | method mt =>
    obtain ⟨_, _, -, h⟩ := bind_eq_ok h
    obtain ⟨_, _, -, h⟩ := bind_eq_ok h
    obtain ⟨_, _, -, h⟩ := bind_eq_ok h
    cases h
    cases hr
  | operation op =>
    obtain ⟨_, _, -, h⟩ := bind_eq_ok h
    obtain ⟨_, _, -, h⟩ := bind_eq_ok h
    cases h
    cases hr
  | inherent refusal =>
    obtain ⟨_, _, -, h⟩ := bind_eq_ok h
    cases refusal with
    | some message => cases h
    | none =>
      cases h
      cases hr
  | slot =>
    dsimp only at h
    split at h
    · cases h
    · cases h
      rfl
  | value _ | part =>
    cases h
    rfl

/-- A command whose code is the modal command is dispatched. -/
theorem history_dispatch (hit : it.Modest) (hargs : c.args.WellFormed) (hm : m.modal = c.code) :
    it.History m ((it.dispatch c).after m) := by
  have h : Steady it.History := steady_history
  obtain ⟨code, args⟩ := c
  subst hm
  rw [dispatch]
  split
  · rename_i hempty
    exact h.follows_at (.dealt (.skipped (String.isEmpty_iff.1 hempty) hargs)) fun _ => h.nothing _
  · rename_i hcode
    have hne : m.modal ≠ "" := fun heq => hcode (String.isEmpty_iff.2 heq)
    refine h.follows_from (hit.history_callHandler hargs hne) fun r m₁ hhandler => ?_
    obtain ⟨hm₁, hr⟩ := hit.callHandler_ok hargs hne hhandler
    obtain ⟨n, args'⟩ := r
    subst hr
    have hmethods := hit.history_callMethod hargs (hm₁ ▸ hne)
    rw [hm₁] at hmethods
    refine h.follows_from hmethods fun k m₂ hmethod => ?_
    dsimp only
    split
    · rename_i hnone
      cases callMethod_none hmethod (by omega)
      rw [← hm₁]
      exact .dealt (.unhandled (hm₁ ▸ hne))
    · exact h.refl m₂

theorem resolveGroup_history (it : Interpreter) (hg : g.WellFormed) (m : Machine) :
    ∃ m', resolveGroup g m = .ok (g.resolve m.modal) m' ∧ it.History m m' ∧
      m'.modal = (g.resolve m.modal).code := by
  obtain ⟨m', hset, hhistory, hmodal⟩ :=
    setModal_history it (Group.resolve_wellFormed hg m.modal).1
  refine ⟨m', ?_, hhistory, hmodal⟩
  rw [resolveGroup, get_bind]
  exact bind_ok hset _

theorem moves_interpretGroups (hit : it.Modest) : ∀ gs : List Group, (∀ g ∈ gs, g.WellFormed) →
    (it.interpretGroups gs).Moves it.History
  | [], _ => steady_history.nothing _
  | g :: gs, hgs => by
    obtain ⟨hg, hgs⟩ := List.forall_mem_cons.1 hgs
    intro m
    obtain ⟨m', hresolve, hhistory, hmodal⟩ := resolveGroup_history it hg m
    rw [after, interpretGroups, bind_ok hresolve]
    refine steady_history.trans hhistory ?_
    exact steady_history.follows_at
      (hit.history_dispatch (Group.resolve_wellFormed hg m.modal).2 hmodal) fun _ =>
        steady_history.follows (moves_interpretGroups hit gs hgs) fun _ => steady_history.nothing _

theorem moves_interpret (hit : it.Modest) {ws : List Word} (hws : ∀ w ∈ ws, w.WellFormed) :
    (it.interpret ws).Moves it.History :=
  steady_history.calls it _ (hit.moves_interpretGroups _ (Group.partition_wellFormed hws))

/-- Well-formed lines are carried out. -/
theorem moves_deliver (hit : it.Modest) : ∀ ls : List Line, (∀ l ∈ ls, l.WellFormed) →
    (it.deliver ls).Moves it.History
  | [], _ => steady_history.nothing ()
  | l :: ls, hls => by
    obtain ⟨hl, hls⟩ := List.forall_mem_cons.1 hls
    have hhearing : it.Hearing [.line l] it.History :=
      hit.hearing (by simpa [Payload.WellFormed] using hl)
    have hline := hit.moves_interpret hl.words
    exact steady_history.follows (steady_history.calls it _ <|
      steady_history.follows (hhearing.moves_emit _) fun _ =>
        steady_history.follows hline fun _ => steady_history.nothing _) fun _ =>
          moves_deliver hit ls hls

end Modest

end Interpreter

end Gcode
