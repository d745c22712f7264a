import Gcode.Proofs.Containment

/-!
The log. Nothing that an interpreter does depends on what is in its log: if host code does not look
at the log, then lines that are carried out with another log do the same but for the log itself
(`ignoresLog_runLines`). This holds of commands too that lead to operations of the interpreter.
-/

namespace Gcode

/-! ### Actions that do not look at the log -/

namespace Act

variable {α β : Type} {a : Act α} {f : α → Act β}

/-- What an action came to, with another log. -/
def withLog (log : List Log.Record) :
    EStateM.Result Fault Machine α → EStateM.Result Fault Machine α
  | .ok x m => .ok x { m with log }
  | .error f m => .error f { m with log }

/-- An action that does not look at the log. With another log before it, it comes to the same with
another log after it. -/
def IgnoresLog (a : Act α) : Prop :=
  ∀ (m : Machine) (log : List Log.Record), ∃ log', a { m with log } = withLog log' (a m)

theorem IgnoresLog.of_ok {m m' : Machine} {x : α} (ha : a.IgnoresLog) (h : a m = .ok x m')
    (log : List Log.Record) : ∃ log', a { m with log } = .ok x { m' with log := log' } := by
  obtain ⟨log', hlog⟩ := ha m log
  exact ⟨log', by rw [hlog, h, withLog]⟩

theorem ignoresLog_pure (x : α) : (pure x : Act α).IgnoresLog := fun _ log => ⟨log, rfl⟩

theorem ignoresLog_throw (f : Fault) : (throw f : Act α).IgnoresLog := fun _ log => ⟨log, rfl⟩

theorem IgnoresLog.bind (ha : a.IgnoresLog) (hf : ∀ x, (f x).IgnoresLog) :
    (a >>= f).IgnoresLog := by
  intro m log
  obtain ⟨log', h⟩ := ha m log
  cases hm : a m with
  | ok x m' =>
    rw [hm, withLog] at h
    obtain ⟨log'', hnext⟩ := hf x m' log'
    exact ⟨log'', by rw [bind_ok h, bind_ok hm, hnext]⟩
  | error e m' =>
    rw [hm, withLog] at h
    exact ⟨log', by rw [bind_error h, bind_error hm, withLog]⟩

/-- Looking at anything but the log. -/
theorem ignoresLog_get {k : Machine → Act β} (hk : ∀ m, (k m).IgnoresLog)
    (hlog : ∀ (m : Machine) log, k { m with log } = k m) : (get >>= k).IgnoresLog := by
  intro m log
  obtain ⟨log', h⟩ := hk m m log
  refine ⟨log', ?_⟩
  rw [get_bind, get_bind, hlog, h]

theorem ignoresLog_modify {f : Machine → Machine}
    (hf : ∀ (m : Machine) log, ∃ log', f { m with log } = { f m with log := log' }) :
    (modify f : Act Unit).IgnoresLog := by
  intro m log
  obtain ⟨log', h⟩ := hf m log
  exact ⟨log', congrArg (EStateM.Result.ok ()) h⟩

theorem ignoresLog_log {level : Log.Level} {channel : Log.Channel} {message : String} :
    (log level channel message).IgnoresLog :=
  ignoresLog_modify fun _ _ => ⟨_, rfl⟩

theorem ignoresLog_enter (entry : Entry) : (enter entry).IgnoresLog :=
  ignoresLog_modify fun _ _ => ⟨_, rfl⟩

end Act

open Act

/-- Host code that does not look at the log. -/
structure Host.IgnoresLog (host : Host) : Prop where
  handler : ∀ id args, (host.handler id args).IgnoresLog
  method : ∀ m args, (host.method m args).IgnoresLog
  listener : ∀ id payload, (host.listener id payload).IgnoresLog
  callback : ∀ id outcome, (host.callback id outcome).IgnoresLog

namespace Interpreter

variable {it : Interpreter}

theorem ignoresLog_call {α : Type} {op : Operation} {body : Act α} (h : body.IgnoresLog) :
    (it.call op body).IgnoresLog := by
  refine IgnoresLog.bind ?_ fun _ => h
  rw [require]
  split
  · exact ignoresLog_throw _
  · exact ignoresLog_pure _

/-! ### Operations as answers to commands -/

theorem ignoresLog_tell (h : it.host.IgnoresLog) (e : Event) (payload : List Payload) :
    ∀ rs : List Registration, (it.tell e payload rs).IgnoresLog
  | [] => ignoresLog_pure _
  | r :: rs => by
    have hrest : (do
        Act.enter (.listener r.listener payload)
        it.host.listener r.listener payload
        it.tell e payload rs : Act Unit).IgnoresLog :=
      (ignoresLog_enter _).bind fun _ => (h.listener _ _).bind fun _ =>
        ignoresLog_tell h e payload rs
    rw [tell]
    dsimp only
    split
    · exact (ignoresLog_call (ignoresLog_modify fun _ _ => ⟨_, rfl⟩)).bind fun _ => hrest
    · exact hrest

theorem ignoresLog_emit (h : it.host.IgnoresLog) (e : Event) (payload : List Payload) :
    (it.emit e payload).IgnoresLog := by
  refine ignoresLog_call (ignoresLog_call (ignoresLog_get (fun m => ?_) fun _ _ => rfl))
  exact (ignoresLog_tell h e payload _).bind fun _ => ignoresLog_pure _

theorem ignoresLog_report (h : it.host.IgnoresLog) (shown : String) (payload : Payload) :
    (it.report shown payload).IgnoresLog :=
  ignoresLog_call (ignoresLog_log.bind fun _ =>
    (ignoresLog_emit h _ _).bind fun _ => ignoresLog_pure _)

theorem ignoresLog_complete (h : it.host.IgnoresLog) (callback : Option String)
    (outcome : Outcome) : (it.complete callback outcome).IgnoresLog := by
  cases callback with
  | none => exact ignoresLog_pure _
  | some id => exact (ignoresLog_enter _).bind fun _ => h.callback id outcome

theorem ignoresLog_schedule (h : it.host.IgnoresLog) (origin : Origin) (callback : Option String) :
    (it.schedule origin callback).IgnoresLog := by
  refine ignoresLog_call (ignoresLog_call (ignoresLog_get (fun m => ?_) fun _ _ => rfl))
  cases it.obstacleToStart? with
  | none =>
    dsimp only
    split
    · exact ignoresLog_log.bind fun _ => ignoresLog_modify fun _ _ => ⟨_, rfl⟩
    · exact ignoresLog_modify fun _ _ => ⟨_, rfl⟩
  | some f =>
    have hfails := ignoresLog_complete h callback (.error f)
    dsimp only
    split
    · exact ignoresLog_log.bind fun _ => ignoresLog_log.bind fun _ => hfails
    · exact ignoresLog_log.bind fun _ => hfails

theorem ignoresLog_answer (h : it.host.IgnoresLog) (op : Operation) (args : Args) :
    (it.answer op args).IgnoresLog := by
  unfold answer
  cases hop : op.refusal? with
  | some f => exact ignoresLog_throw f
  | none =>
    cases op with
    | create => exact ignoresLog_modify fun _ _ => ⟨_, rfl⟩
    | report => exact ignoresLog_report h _ _
    | startStream => exact ignoresLog_schedule h _ _
    | startFile => exact ignoresLog_schedule h _ _
    | startText => exact ignoresLog_schedule h _ _
    | loadString => exact ignoresLog_call (ignoresLog_throw _)
    | unlisten => exact ignoresLog_call (ignoresLog_throw _)
    | listeners => exact ignoresLog_call (ignoresLog_throw _)
    | emit => exact ignoresLog_call (ignoresLog_throw _)
    | interpret => exact ignoresLog_throw _
    | loadFile => exact ignoresLog_throw _
    | checkEvent => exact ignoresLog_throw _
    | _ => exact ignoresLog_pure ()

/-! ### Lines -/

theorem ignoresLog_resolveGroup (g : Group) : (resolveGroup g).IgnoresLog := by
  have hset : ∀ code, (setModal code).IgnoresLog := by
    intro code
    refine ignoresLog_get (fun m => ?_) fun _ _ => rfl
    have hmodal : (modify fun m => { m with modal := code } : Act Unit).IgnoresLog :=
      ignoresLog_modify fun _ _ => ⟨_, rfl⟩
    dsimp only
    split
    · exact ignoresLog_log.bind fun _ => hmodal
    · exact hmodal
  refine ignoresLog_get (fun m => ?_) fun _ _ => rfl
  exact (hset _).bind fun _ => ignoresLog_pure _

theorem ignoresLog_callHandler (h : it.host.IgnoresLog) (code : String) (args : Args) :
    (it.callHandler code args).IgnoresLog := by
  refine ignoresLog_get (fun m => ?_) fun _ _ => rfl
  split
  · exact ignoresLog_log.bind fun _ => (ignoresLog_enter _).bind fun _ =>
      (h.handler _ _).bind fun _ => ignoresLog_pure _
  · exact ignoresLog_pure _

theorem ignoresLog_callMethod (h : it.host.IgnoresLog) (code : String) (args : Args) :
    (it.callMethod code args).IgnoresLog := by
  rw [callMethod]
  split
  · exact ignoresLog_log.bind fun _ => (ignoresLog_enter _).bind fun _ =>
      (h.method _ _).bind fun _ => ignoresLog_pure _
  · exact ignoresLog_log.bind fun _ => (ignoresLog_answer h _ _).bind fun _ =>
      ignoresLog_pure _
  · refine ignoresLog_log.bind fun _ => ?_
    split
    · exact ignoresLog_throw _
    · exact ignoresLog_pure _
  · dsimp only
    split
    · exact (ignoresLog_throw _).bind fun _ => ignoresLog_pure _
    · exact ignoresLog_pure _
  · exact ignoresLog_pure _

theorem ignoresLog_dispatch (h : it.host.IgnoresLog) (c : Command) :
    (it.dispatch c).IgnoresLog := by
  rw [dispatch]
  split
  · exact ignoresLog_log.bind fun _ => ignoresLog_pure _
  · refine (ignoresLog_callHandler h _ _).bind fun _ => ?_
    refine (ignoresLog_callMethod h _ _).bind fun _ => ?_
    dsimp only
    split
    · exact ignoresLog_log.bind fun _ => ignoresLog_pure _
    · exact ignoresLog_pure _

theorem ignoresLog_interpretGroups (h : it.host.IgnoresLog) : ∀ gs : List Group,
    (it.interpretGroups gs).IgnoresLog
  | [] => ignoresLog_pure _
  | g :: gs =>
    (ignoresLog_resolveGroup g).bind fun c => (ignoresLog_dispatch h c).bind fun _ =>
      (ignoresLog_interpretGroups h gs).bind fun _ => ignoresLog_pure _

/-- Lines are carried out without a look at the log. -/
theorem ignoresLog_runLines (h : it.host.IgnoresLog) : ∀ (ls : List Line) (index : Nat),
    (it.runLines none index ls).IgnoresLog
  | [], _ => ignoresLog_pure _
  | _ :: ls, _ =>
    (ignoresLog_call (ignoresLog_interpretGroups h _)).bind fun _ =>
      (ignoresLog_pure _).bind fun _ => ignoresLog_runLines h ls _

end Interpreter

end Gcode
