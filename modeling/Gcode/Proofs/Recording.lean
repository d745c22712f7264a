import Gcode.Proofs.Refusals
import Gcode.Proofs.Resolution
import Gcode.Proofs.Returning

/-!
Runs on record. What host code does is any action at all, so a machine need not tell afterwards who
was called. Here the calls are taken down while a run goes on, each where it is made: for a command
the handler and the method, with the arguments that they are handed, the modal command at that
moment and the fault that they end in (`recordCall`); for a line the call of the line callback
(`recordReport`). A recorded run does what the run does (`act_recordDispatch`,
`act_recordInterpret`, `act_recordLoad`).
-/

namespace Gcode

open Act

/-! ### Recorded actions -/

/-- An action that takes down what it does on the way, also if it ends in a fault. -/
def Recorded (κ α : Type) := Machine → List κ × EStateM.Result Fault Machine α

namespace Recorded

variable {κ κ' α β : Type}

/-- An action of which nothing is taken down. -/
def quietly (a : Act α) : Recorded κ α := fun m => ([], a m)

/-- One recorded action after another. -/
def andThen (a : Recorded κ α) (f : α → Recorded κ β) : Recorded κ β := fun m =>
  match a m with
  | (ks, .ok x m') => (ks ++ (f x m').1, (f x m').2)
  | (ks, .error e m') => (ks, .error e m')

instance : Monad (Recorded κ) where
  pure x := quietly (pure x)
  bind := andThen

/-- Puts together what an action takes down. -/
def gather (f : List κ → κ') (a : Recorded κ α) : Recorded κ' α := fun m => ([f (a m).1], (a m).2)

/-- A recorded action without the record. -/
def act (a : Recorded κ α) : Act α := fun m => (a m).2

variable {a : Recorded κ α} {f : α → Recorded κ β} {m m' : Machine} {ks : List κ} {x : α}
  {e : Fault}

theorem bind_ok (h : a m = (ks, .ok x m')) (f : α → Recorded κ β) :
    (a >>= f) m = (ks ++ (f x m').1, (f x m').2) := by
  show andThen a f m = _
  rw [andThen, h]

theorem bind_error (h : a m = (ks, .error e m')) (f : α → Recorded κ β) :
    (a >>= f) m = (ks, .error e m') := by
  show andThen a f m = _
  rw [andThen, h]

theorem act_ok (h : a m = (ks, .ok x m')) : a.act m = .ok x m' := congrArg Prod.snd h

theorem act_error (h : a m = (ks, .error e m')) : a.act m = .error e m' := congrArg Prod.snd h

theorem gather_eq {r : EStateM.Result Fault Machine α} (h : a m = (ks, r)) (g : List κ → κ') :
    a.gather g m = ([g ks], r) := by
  rw [gather, h]

theorem quietly_bind_ok {a : Act α} (h : a m = .ok x m') (f : α → Recorded κ β) :
    (quietly a >>= f) m = f x m' := by
  have hquiet : (quietly a : Recorded κ α) m = ([], .ok x m') := congrArg (Prod.mk []) h
  rw [bind_ok hquiet, List.nil_append]

theorem quietly_bind_error {a : Act α} (h : a m = .error e m') (f : α → Recorded κ β) :
    (quietly a >>= f) m = ([], .error e m') :=
  bind_error (congrArg (Prod.mk []) h) f

theorem bind_pure_ok (h : a m = (ks, .ok x m')) (f : α → β) :
    (a >>= fun x => pure (f x)) m = (ks, .ok (f x) m') := by
  rw [bind_ok h]
  exact Prod.ext (List.append_nil ks) rfl

/-- What is done quietly in the end is not taken down. -/
theorem fst_bind_silent (a : Recorded κ α) (hf : ∀ x n, (f x n).1 = []) (m : Machine) :
    ((a >>= f) m).1 = (a m).1 := by
  rcases h : a m with ⟨ks, (⟨x, m'⟩ | ⟨e, m'⟩)⟩
  · rw [bind_ok h, hf]
    exact List.append_nil ks
  · rw [bind_error h]

theorem fst_bind_quietly (a : Recorded κ α) (f : α → Act β) (m : Machine) :
    ((a >>= fun x => quietly (f x)) m).1 = (a m).1 :=
  fst_bind_silent a (fun _ _ => rfl) m

@[simp] theorem act_quietly (a : Act α) : (quietly a : Recorded κ α).act = a := rfl

@[simp] theorem act_pure (x : α) : (pure x : Recorded κ α).act = pure x := rfl

@[simp] theorem act_gather (g : List κ → κ') (a : Recorded κ α) : (a.gather g).act = a.act := rfl

@[simp] theorem act_bind (a : Recorded κ α) (f : α → Recorded κ β) :
    (a >>= f).act = a.act >>= fun x => (f x).act := by
  funext m
  rcases h : a m with ⟨ks, (⟨x, m'⟩ | ⟨e, m'⟩)⟩
  · rw [act, bind_ok h, Act.bind_ok (act_ok h)]
    rfl
  · rw [act, bind_error h, Act.bind_error (act_error h)]

end Recorded

/-! ### Calls -/

/-- What is called for a command. -/
inductive Target where
  | handler (id : String)
  | method (m : Method)
  | operation (op : Operation)
  | inherent (refusal : Option String)
  deriving DecidableEq, Repr

/-- What is called that an instance finds, if it can be. -/
def Attribute.target? : Attribute → Option Target
  | .method m => some (.method m)
  | .operation op => some (.operation op)
  | .inherent refusal => some (.inherent refusal)
  | .value _ | .slot | .part => none

namespace Target

variable (it : Interpreter)

/-- What the interpreter notes about a call before it makes it. Of a handler it does not note the
name under which it was found. -/
def note (code name : String) (args : Args) : Target → Act Unit
  | .handler id => do
    Act.log .trace .dispatch ("dispatch_handler code=" ++ code)
    Act.enter (.handler id args)
  | .method m => do
    Interpreter.logMethod code name
    Act.enter (.method m args)
  | .operation _ | .inherent _ => Interpreter.logMethod code name

/-- The call itself. -/
def act (args : Args) : Target → Act Args
  | .handler id => it.host.handler id args
  | .method m => it.host.method m args
  | .operation op => do
    it.answer op args
    pure args
  | .inherent (some message) => throw (.raised .type message none)
  | .inherent none => pure args

end Target

/-- A call that is made for a command. -/
structure Call where
  /-- The code of the command. -/
  code : String
  target : Target
  /-- The arguments as the call finds them. -/
  args : Args
  /-- The modal command as the call finds it. -/
  modal : String
  /-- The fault that it ends in, if it does. -/
  fault : Option Fault

/-- The calls that a command may lead to: its handler, and then its method unless the handler ended
in a fault. The first of them finds the arguments and the modal command that are given. -/
inductive Call.Sequence (c : Command) (modal : String) : List Call → Prop where
  | none : Sequence c modal []
  | one (target : Target) (fault : Option Fault) :
    Sequence c modal [⟨c.code, target, c.args, modal, fault⟩]
  | both (id : String) {target : Target} (hmethod : ∀ id, target ≠ .handler id) (args : Args)
      (modal' : String) (fault : Option Fault) :
    Sequence c modal
      [⟨c.code, .handler id, c.args, modal, Option.none⟩, ⟨c.code, target, args, modal', fault⟩]

/-- A command with the calls that it leads to. -/
structure Dispatched where
  command : Command
  calls : List Call

/-- A call of the line callback. -/
structure Report where
  callback : String
  line : Line
  index : Nat

/-- The calls by which a line of some index is reported. -/
def reportsOf (callback : Option String) (l : Line) (index : Nat) : List Report :=
  callback.toList.map fun id => ⟨id, l, index⟩

/-- A line with the commands that were begun, and with the calls by which it was reported. -/
structure Carried where
  line : Line
  commands : List Dispatched
  reports : List Report

/-- The calls for the commands of a line. -/
def Carried.calls (k : Carried) : List Call := k.commands.flatMap (·.calls)

/-- The handler that a code is dispatched to. -/
def Machine.handlerFor? (m : Machine) (code : String) : Option Target :=
  match m.handlers.get? code with
  | some (.callable id) => some (.handler id)
  | _ => none

/-- The method that a code is dispatched to, with the name it is found under. -/
def Dialect.methodFor? (d : Dialect) (code : String) : Option (String × Target) :=
  (d.attribute? code).bind fun a => a.2.target?.map fun target => (a.1, target)

namespace Interpreter

/-- The fault of a result. -/
def faultOf? {α : Type} : EStateM.Result Fault Machine α → Option Fault
  | .ok _ _ => none
  | .error f _ => some f

/-- Makes a call and takes it down. -/
def recordCall (it : Interpreter) (code : String) (args : Args) (target : Target) :
    Recorded Call Args := fun m =>
  let result := target.act it args m
  ([⟨code, target, args, m.modal, faultOf? result⟩], result)

/-- Calls what is found under a name for a code. -/
def recordTarget (it : Interpreter) (code name : String) (args : Args) (target : Target) :
    Recorded Call (Nat × Args) := do
  .quietly (target.note code name args)
  let left ← it.recordCall code args target
  pure (1, left)

/-- Calls the handler of a code. -/
def recordHandler (it : Interpreter) (code : String) (args : Args) :
    Recorded Call (Nat × Args) := fun m =>
  match m.handlerFor? code with
  | some target => it.recordTarget code "" args target m
  | none => ([], .ok (0, args) m)

/-- What comes of a code for which no method can be called. Looking up a slot may fail. -/
def missMethod (it : Interpreter) (code : String) (args : Args) : Act (Nat × Args) :=
  match it.dialect.attribute? code with
  | some (name, .slot) => do
    let f := Dialect.emptySlot it.dialect.owner it.dialect.attributes name
    if f.kind ≠ .attribute then throw f
    pure (0, args)
  | _ => pure (0, args)

/-- Calls the method of a code. -/
def recordMethod (it : Interpreter) (code : String) (args : Args) : Recorded Call (Nat × Args) :=
  match it.dialect.methodFor? code with
  | some (name, target) => it.recordTarget code name args target
  | none => .quietly (it.missMethod code args)

/-- Dispatches a command. -/
def recordDispatch (it : Interpreter) (c : Command) : Recorded Call (Nat × Args) :=
  if c.code.isEmpty then .quietly do
    Act.log .trace .dispatch
      ("dispatch_skip reason=no_modal_command args=" ++ (Args.toLiteral c.args).render)
    pure (0, c.args)
  else do
    let (handlers, args) ← it.recordHandler c.code c.args
    let (methods, args) ← it.recordMethod c.code args
    .quietly do
      if handlers + methods = 0 then
        Act.log .trace .dispatch ("dispatch_unhandled code=" ++ c.code)
      pure (handlers + methods, args)

/-- Carries out groups. -/
def recordGroups (it : Interpreter) : List Group → Recorded Dispatched (List Command)
  | [] => pure []
  | g :: gs => do
    let c ← .quietly (resolveGroup g)
    let (_, args) ← (it.recordDispatch c).gather fun calls => ⟨c, calls⟩
    let rest ← it.recordGroups gs
    pure ({ c with args } :: rest)

/-- Carries out the words of a line. -/
def recordInterpret (it : Interpreter) (ws : List Word) : Recorded Dispatched (List Command) := do
  .quietly (it.require .interpret)
  it.recordGroups (Group.partition ws)

/-- Calls the line callback and takes the call down. -/
def recordReport (it : Interpreter) (r : Report) : Recorded Report Unit := fun m =>
  ([r], it.host.lineDone r.callback r.line r.index m)

/-- Reports a line. -/
def recordDone (it : Interpreter) (callback : Option String) (l : Line) (index : Nat) :
    Recorded Report Unit :=
  match callback with
  | none => pure ()
  | some id => do
    .quietly (do Act.enter (.lineDone id index l (← get).modal))
    it.recordReport ⟨id, l, index⟩

/-- Carries out a line and reports it. -/
def recordLine (it : Interpreter) (callback : Option String) (index : Nat) (l : Line) :
    Recorded Carried Unit := fun m =>
  match it.recordInterpret l.words m with
  | (ds, .ok _ m') =>
    let (reports, result) := it.recordDone callback l index m'
    ([⟨l, ds, reports⟩], result)
  | (ds, .error f m') => ([⟨l, ds, []⟩], .error f m')

/-- Carries out lines, the first of which has the given index. -/
def recordLines (it : Interpreter) (callback : Option String) (index : Nat) :
    List Line → Recorded Carried Unit
  | [] => pure ()
  | l :: ls => do
    it.recordLine callback index l
    it.recordLines callback (index + 1) ls

/-- Loads a text. -/
def recordLoad (it : Interpreter) (text : List Char) (callback : Option String) :
    Recorded Carried (List Line) := do
  .quietly (it.require .loadText)
  let m ← .quietly get
  let lines ← .quietly (linesOf (LineReader.program { strict := m.strict } text).1)
  it.recordLines callback 0 lines
  .quietly (logLoaded lines.length)
  pure lines

/-! ### A recorded run is the run -/

variable (it : Interpreter)

@[simp] theorem act_recordCall (code : String) (args : Args) (target : Target) :
    (it.recordCall code args target).act = target.act it args := rfl

@[simp] theorem act_recordTarget (code name : String) (args : Args) (target : Target) :
    (it.recordTarget code name args target).act = target.note code name args >>= fun _ =>
      target.act it args >>= fun left => pure (1, left) := by
  simp [recordTarget]

@[simp] theorem act_recordHandler (code : String) (args : Args) :
    (it.recordHandler code args).act = it.callHandler code args := by
  funext m
  rw [Recorded.act, recordHandler, Machine.handlerFor?, callHandler, get_bind]
  rcases m.handlers.get? code with _ | (id | _)
  · rfl
  · refine (congrFun (it.act_recordTarget code "" args (.handler id)) m).trans ?_
    simp [Target.note, Target.act]
  · rfl

@[simp] theorem act_recordMethod (code : String) (args : Args) :
    (it.recordMethod code args).act = it.callMethod code args := by
  rw [recordMethod, callMethod, missMethod, Dialect.methodFor?]
  rcases it.dialect.attribute? code with _ | ⟨name, a⟩
  · rfl
  cases a with
  | method m => simp [Attribute.target?, Target.note, Target.act]
  | operation op => simp [Attribute.target?, Target.note, Target.act]
  | inherent refusal =>
    cases refusal with
    | none => simp [Attribute.target?, Target.note, Target.act]
    | some message => rfl
  | value type => rfl
  | slot => rfl
  | part => rfl

@[simp] theorem act_recordDispatch (c : Command) : (it.recordDispatch c).act = it.dispatch c := by
  rw [recordDispatch, dispatch]
  split
  · rfl
  · simp

@[simp] theorem act_recordGroups : ∀ gs, (it.recordGroups gs).act = it.interpretGroups gs
  | [] => rfl
  | g :: gs => by
    rw [recordGroups, interpretGroups]
    simp [act_recordGroups gs]

@[simp] theorem act_recordInterpret (ws : List Word) :
    (it.recordInterpret ws).act = it.interpret ws := by
  rw [recordInterpret, interpret, call]
  simp

@[simp] theorem act_recordDone (callback : Option String) (l : Line) (index : Nat) :
    (it.recordDone callback l index).act = it.lineDone callback l index := by
  cases callback with
  | none => rfl
  | some id => rfl

@[simp] theorem act_recordLine (callback : Option String) (index : Nat) (l : Line) :
    (it.recordLine callback index l).act =
      it.interpret l.words >>= fun _ => it.lineDone callback l index := by
  funext m
  rw [← it.act_recordInterpret, ← it.act_recordDone, Recorded.act, recordLine]
  rcases h : it.recordInterpret l.words m with ⟨ds, (⟨cs, m'⟩ | ⟨f, m'⟩)⟩
  · exact (Act.bind_ok (Recorded.act_ok h) fun _ => (it.recordDone callback l index).act).symm
  · exact (Act.bind_error (Recorded.act_error h) fun _ => (it.recordDone callback l index).act).symm

@[simp] theorem act_recordLines (callback : Option String) : ∀ (index : Nat) (ls : List Line),
    (it.recordLines callback index ls).act = it.runLines callback index ls
  | _, [] => rfl
  | index, l :: ls => by
    rw [recordLines, runLines]
    simp [act_recordLines callback (index + 1) ls]

@[simp] theorem act_recordLoad (text : List Char) (callback : Option String) :
    (it.recordLoad text callback).act = it.loadText text callback := by
  rw [recordLoad, loadText, call]
  simp

/-! ### What is called -/

variable {it} {code : String} {args : Args} {m m' : Machine} {n : Nat} {left : Args}

theorem handlerFor?_cases (m : Machine) (code : String) :
    m.handlerFor? code = none ∨ ∃ id, m.handlerFor? code = some (.handler id) := by
  rw [Machine.handlerFor?]
  split
  · exact .inr ⟨_, rfl⟩
  · exact .inl rfl

/-- The method of a code is no handler. -/
theorem not_handler_of_methodFor? {name : String} {target : Target}
    (h : it.dialect.methodFor? code = some (name, target)) (id : String) :
    target ≠ .handler id := by
  rw [Dialect.methodFor?, Option.bind_eq_some_iff] at h
  obtain ⟨⟨name', a⟩, -, h⟩ := h
  rintro rfl
  cases a <;> cases h

/-- Without a handler for a code nothing happens. -/
theorem callHandler_none (it : Interpreter) (args : Args) (h : m.handlerFor? code = none) :
    it.callHandler code args m = .ok (0, args) m := by
  rw [← act_recordHandler, Recorded.act, recordHandler, h]

/-- Without a method for a code nothing happens, or the lookup fails. -/
theorem callMethod_none (it : Interpreter) (args : Args) (h : it.dialect.methodFor? code = none)
    (m : Machine) : it.callMethod code args m = .ok (0, args) m ∨
      ∃ f, it.callMethod code args m = .error f m := by
  rw [← act_recordMethod, recordMethod, h, Recorded.act_quietly, missMethod]
  rcases it.dialect.attribute? code with _ | ⟨name, a⟩
  · exact .inl rfl
  cases a with
  | slot =>
    dsimp only
    split
    · exact .inr ⟨_, rfl⟩
    · exact .inl rfl
  | _ => exact .inl rfl

/-- What is noted before a call leaves the modal command as it is. -/
theorem note_eq (target : Target) (code name : String) (args : Args) (m : Machine) :
    ∃ journal log, target.note code name args m = .ok () { m with journal, log } := by
  cases target <;> exact ⟨_, _, rfl⟩

/-- One call is taken down, with the arguments and the modal command that are given. -/
theorem fst_recordTarget (it : Interpreter) (code name : String) (args : Args) (target : Target)
    (m : Machine) : ∃ fault,
      (it.recordTarget code name args target m).1 = [⟨code, target, args, m.modal, fault⟩] ∧
      ∀ r m', (it.recordTarget code name args target m).2 = .ok r m' → fault = none := by
  obtain ⟨journal, log, hnote⟩ := note_eq target code name args m
  rw [recordTarget, Recorded.quietly_bind_ok hnote]
  rcases hact : target.act it args { m with journal, log } with ⟨left, m₁⟩ | ⟨f, m₁⟩
  · have hcall : it.recordCall code args target { m with journal, log } =
        ([⟨code, target, args, m.modal, none⟩], .ok left m₁) := by
      rw [recordCall, hact]
      rfl
    rw [Recorded.bind_pure_ok hcall]
    exact ⟨none, rfl, fun _ _ _ => rfl⟩
  · have hcall : it.recordCall code args target { m with journal, log } =
        ([⟨code, target, args, m.modal, some f⟩], .error f m₁) := by
      rw [recordCall, hact]
      rfl
    rw [Recorded.bind_error hcall]
    exact ⟨some f, rfl, fun r m' h => by cases h⟩

/-- For the method of a code one call is taken down at most, and not the call of a handler. -/
theorem fst_recordMethod (it : Interpreter) (code : String) (args : Args) (m : Machine) :
    (it.recordMethod code args m).1 = [] ∨ ∃ target fault, (∀ id, target ≠ .handler id) ∧
      (it.recordMethod code args m).1 = [⟨code, target, args, m.modal, fault⟩] := by
  rw [recordMethod]
  rcases hfor : it.dialect.methodFor? code with _ | ⟨name, target⟩
  · exact .inl rfl
  · obtain ⟨fault, hcalls, -⟩ := it.fst_recordTarget code name args target m
    exact .inr ⟨target, fault, not_handler_of_methodFor? hfor, hcalls⟩

/-- A command is dispatched to its handler and then to its method. -/
theorem recordDispatch_sequence (it : Interpreter) (c : Command) (m : Machine) :
    Call.Sequence c m.modal (it.recordDispatch c m).1 := by
  rw [recordDispatch]
  split
  · exact .none
  rcases handlerFor?_cases m c.code with hnone | ⟨id, hid⟩
  · have hhandler : it.recordHandler c.code c.args m = ([], .ok (0, c.args) m) := by
      rw [recordHandler, hnone]
    rw [Recorded.bind_ok hhandler, List.nil_append]
    dsimp only
    rw [Recorded.fst_bind_quietly]
    rcases it.fst_recordMethod c.code c.args m with h | ⟨target, fault, -, h⟩
    · rw [h]
      exact .none
    · rw [h]
      exact .one target fault
  · have hhandler : it.recordHandler c.code c.args m =
        it.recordTarget c.code "" c.args (.handler id) m := by
      rw [recordHandler, hid]
    obtain ⟨fault, hcalls, hreturned⟩ := it.fst_recordTarget c.code "" c.args (.handler id) m
    rw [← hhandler] at hcalls hreturned
    rcases hrecord : it.recordHandler c.code c.args m with ⟨calls, (⟨⟨n, args⟩, m'⟩ | ⟨f, m'⟩)⟩
    · rw [hrecord] at hcalls hreturned
      obtain rfl := hreturned _ _ rfl
      rw [Recorded.bind_ok hrecord]
      dsimp only at hcalls ⊢
      rw [Recorded.fst_bind_quietly, hcalls]
      rcases it.fst_recordMethod c.code args m' with h | ⟨target, fault, hother, h⟩
      · rw [h]
        exact .one _ none
      · rw [h]
        exact .both id hother args m'.modal fault
    · rw [hrecord] at hcalls
      rw [Recorded.bind_error hrecord]
      dsimp only at hcalls ⊢
      rw [hcalls]
      exact .one _ fault

/-! ### Lines -/

section Lines

variable {l : Line} {ds : List Dispatched}

/-- A line that was carried out is reported. -/
theorem recordLine_ok {cs : List Command} (h : it.recordInterpret l.words m = (ds, .ok cs m'))
    (callback : Option String) (index : Nat) :
    it.recordLine callback index l m =
      ([⟨l, ds, reportsOf callback l index⟩], it.lineDone callback l index m') := by
  have hdone : it.recordDone callback l index m' =
      (reportsOf callback l index, it.lineDone callback l index m') := by
    cases callback <;> rfl
  simp only [recordLine, h, hdone]

/-- Otherwise it is not. -/
theorem recordLine_error {f : Fault} (h : it.recordInterpret l.words m = (ds, .error f m'))
    (callback : Option String) (index : Nat) :
    it.recordLine callback index l m = ([⟨l, ds, []⟩], .error f m') := by
  simp only [recordLine, h]

end Lines

/-! ### Group by group -/

/-- If lines can be carried out, a line is carried out by its groups. -/
theorem recordInterpret_eq (h : it.dialect.obstacle? .interpret = none) (ws : List Word) :
    it.recordInterpret ws = it.recordGroups (Group.partition ws) := by
  rw [recordInterpret, require_eq_pure h]
  exact funext fun m => Recorded.quietly_bind_ok rfl _

theorem recordInterpret_hindered {f : Fault} (h : it.dialect.obstacle? .interpret = some f)
    (ws : List Word) (m : Machine) : it.recordInterpret ws m = ([], .error f m) := by
  rw [recordInterpret, require, h]
  exact Recorded.quietly_bind_error rfl _

section Groups

variable {g : Group} {gs : List Group} {c : Command} {m₁ m₂ : Machine} {calls : List Call}
  {ds : List Dispatched} {f : Fault}

/-- A group whose calls return is followed by the other groups. -/
theorem recordGroups_cons_ok (hresolve : resolveGroup g m = .ok c m₁)
    (hdispatch : it.recordDispatch c m₁ = (calls, .ok (n, left) m₂)) {cs : List Command}
    (hrest : it.recordGroups gs m₂ = (ds, .ok cs m')) :
    it.recordGroups (g :: gs) m = (⟨c, calls⟩ :: ds, .ok ({ c with args := left } :: cs) m') := by
  rw [recordGroups, Recorded.quietly_bind_ok hresolve,
    Recorded.bind_ok (Recorded.gather_eq hdispatch _)]
  dsimp only
  rw [Recorded.bind_pure_ok hrest]
  rfl

theorem recordGroups_cons_later (hresolve : resolveGroup g m = .ok c m₁)
    (hdispatch : it.recordDispatch c m₁ = (calls, .ok (n, left) m₂))
    (hrest : it.recordGroups gs m₂ = (ds, .error f m')) :
    it.recordGroups (g :: gs) m = (⟨c, calls⟩ :: ds, .error f m') := by
  rw [recordGroups, Recorded.quietly_bind_ok hresolve,
    Recorded.bind_ok (Recorded.gather_eq hdispatch _)]
  dsimp only
  rw [Recorded.bind_error hrest]
  rfl

theorem recordGroups_cons_record (hresolve : resolveGroup g m = .ok c m₁)
    (hdispatch : it.recordDispatch c m₁ = (calls, .ok (n, left) m₂)) :
    (it.recordGroups (g :: gs) m).1 = ⟨c, calls⟩ :: (it.recordGroups gs m₂).1 := by
  rcases hrest : it.recordGroups gs m₂ with ⟨ds, (⟨cs, m'⟩ | ⟨f, m'⟩)⟩
  · rw [recordGroups_cons_ok hresolve hdispatch hrest]
  · rw [recordGroups_cons_later hresolve hdispatch hrest]

/-- A group with a call that does not return is the last. -/
theorem recordGroups_cons_error (hresolve : resolveGroup g m = .ok c m₁)
    (hdispatch : it.recordDispatch c m₁ = (calls, .error f m')) :
    it.recordGroups (g :: gs) m = ([⟨c, calls⟩], .error f m') := by
  rw [recordGroups, Recorded.quietly_bind_ok hresolve,
    Recorded.bind_error (Recorded.gather_eq hdispatch _)]

end Groups

end Interpreter

end Gcode
