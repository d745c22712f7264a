import Gcode.Interpreter.Streaming

/-!
Contained actions. Streams, sources and the log are the part of a machine that a load keeps to
itself; the rest is its core. An action is contained if it neither looks at the former nor changes
the streams, the sources and the queue of tasks; it may write to the log. If host code is contained,
so is the interpretation of lines and the giving of notices, and two loads that differ only in the
way they read their text run alike.
-/

namespace Gcode

/-- A machine without its streams, its sources and its log. -/
def Machine.core (m : Machine) : Machine := { m with streams := [], sources := [], log := [] }

/-- What a load reads from, and the tasks that wait for their turn. -/
def Machine.inputs (m : Machine) : List Stream × List Source × List Nat :=
  (m.streams, m.sources, m.queue)

/-- Machines with the same core agree on everything that is part of it. -/
theorem Machine.eq_of_core {γ : Type} {m n : Machine} (h : m.core = n.core) (part : Machine → γ)
    (hpart : ∀ m, part m.core = part m) : part m = part n := by
  rw [← hpart m, h, hpart n]

namespace Act

variable {α β : Type} {a b : Act α} {f g : α → Act β} {m n m' : Machine} {x : α} {e : Fault}
  {P : Machine → Prop}

/-- The machine after an action, whether it returns or not. -/
def after (a : Act α) (m : Machine) : Machine :=
  match a m with
  | .ok _ m' => m'
  | .error _ m' => m'

/-- The value of an action or its fault. -/
def outcome (a : Act α) (m : Machine) : Except Fault α :=
  match a m with
  | .ok x _ => .ok x
  | .error e _ => .error e

/-- What an action shows: its value or its fault, and the core of the machine after it. -/
def seen (a : Act α) (m : Machine) : Except Fault α × Machine := (a.outcome m, (a.after m).core)

/-! ### One action after another -/

theorem bind_ok (h : a m = .ok x m') (f : α → Act β) : (a >>= f) m = f x m' := by
  show EStateM.bind a f m = _
  rw [EStateM.bind, h]

theorem bind_error (h : a m = .error e m') (f : α → Act β) : (a >>= f) m = .error e m' := by
  show EStateM.bind a f m = _
  rw [EStateM.bind, h]

theorem get_bind (k : Machine → Act β) (m : Machine) : (get >>= k) m = k m m := rfl

theorem log_bind (level : Log.Level) (channel : Log.Channel) (message : String) (k : Unit → Act β)
    (m : Machine) :
    (log level channel message >>= k) m =
      k () { m with log := m.log ++ [⟨level, channel, message⟩] } := rfl

theorem enter_bind (entry : Entry) (k : Unit → Act β) (m : Machine) :
    (enter entry >>= k) m = k () { m with journal := m.journal ++ [entry] } := rfl

/-- If two actions return, the first does. -/
theorem bind_eq_ok {y : β} (h : (a >>= f) m = .ok y m') :
    ∃ x n, a m = .ok x n ∧ f x n = .ok y m' := by
  cases ha : a m with
  | ok x n => exact ⟨x, n, rfl, by rwa [bind_ok ha] at h⟩
  | error e n => rw [bind_error ha] at h; cases h

/-- What comes of two actions depends only on what the first comes to. -/
theorem bind_congr_left (h : a m = b n) (f : α → Act β) : (a >>= f) m = (b >>= f) n := by
  show EStateM.bind a f m = EStateM.bind b f n
  rw [EStateM.bind, EStateM.bind, h]

theorem attempt_congr (h : a m = b n) : a.attempt m = b.attempt n := by
  simp only [attempt, h]

theorem attempt_ok (h : a m = .ok x m') : a.attempt m = .ok (.ok x) m' := by
  simp only [attempt, h]

theorem attempt_error (h : a m = .error e m') : a.attempt m = .ok (.error e) m' := by
  simp only [attempt, h]

theorem leaving_ok (h : a m = .ok x m') : a.leaving m = .ok x m' := by
  simp only [leaving, h]

theorem leaving_error (h : a m = .error e m') : a.leaving m = .error e.leaving m' := by
  simp only [leaving, h]

theorem leaving_congr (h : a m = b n) : a.leaving m = b.leaving n := by
  simp only [leaving, h]

theorem seen_ok (h : a m = .ok x m') : a.seen m = (.ok x, m'.core) := by
  simp only [seen, outcome, after, h]

theorem seen_error (h : a m = .error e m') : a.seen m = (.error e, m'.core) := by
  simp only [seen, outcome, after, h]

theorem seen_congr (h : a m = b n) : a.seen m = b.seen n := by
  simp only [seen, outcome, after, h]

theorem seen_bind_ok (h : a m = .ok x m') : (a >>= f).seen m = (f x).seen m' :=
  seen_congr (bind_ok h f)

/-- If the first of two actions show the same, and the second do wherever the first lead, then the
two together show the same. -/
theorem seen_bind (h : a.seen m = b.seen n)
    (hnext : ∀ x m' n', a m = .ok x m' → b n = .ok x n' → m'.core = n'.core →
      (f x).seen m' = (g x).seen n') : (a >>= f).seen m = (b >>= g).seen n := by
  cases ha : a m with
  | ok x m' =>
    cases hb : b n with
    | ok y n' =>
      rw [seen_ok ha, seen_ok hb, Prod.mk.injEq, Except.ok.injEq] at h
      obtain ⟨rfl, hcore⟩ := h
      rw [seen_bind_ok ha, seen_bind_ok hb, hnext x m' n' ha hb hcore]
    | error e n' => rw [seen_ok ha, seen_error hb] at h; simp at h
  | error e m' =>
    cases hb : b n with
    | ok y n' => rw [seen_error ha, seen_ok hb] at h; simp at h
    | error e' n' =>
      rw [seen_error ha, seen_error hb, Prod.mk.injEq, Except.error.injEq] at h
      rw [seen_error (bind_error ha f), seen_error (bind_error hb g), h.1, h.2]

theorem seen_attempt (h : a.seen m = b.seen n) : a.attempt.seen m = b.attempt.seen n := by
  cases ha : a m with
  | ok x m' =>
    cases hb : b n with
    | ok y n' =>
      rw [seen_ok ha, seen_ok hb, Prod.mk.injEq, Except.ok.injEq] at h
      rw [seen_ok (attempt_ok ha), seen_ok (attempt_ok hb), h.1, h.2]
    | error e n' => rw [seen_ok ha, seen_error hb] at h; simp at h
  | error e m' =>
    cases hb : b n with
    | ok y n' => rw [seen_error ha, seen_ok hb] at h; simp at h
    | error e' n' =>
      rw [seen_error ha, seen_error hb, Prod.mk.injEq, Except.error.injEq] at h
      rw [seen_ok (attempt_error ha), seen_ok (attempt_error hb), h.1, h.2]

theorem seen_leaving (h : a.seen m = b.seen n) : a.leaving.seen m = b.leaving.seen n := by
  cases ha : a m with
  | ok x m' =>
    cases hb : b n with
    | ok y n' => rwa [seen_ok (leaving_ok ha), seen_ok (leaving_ok hb), ← seen_ok ha, ← seen_ok hb]
    | error e' n' => rw [seen_ok ha, seen_error hb] at h; simp at h
  | error e m' =>
    cases hb : b n with
    | ok y n' => rw [seen_error ha, seen_ok hb] at h; simp at h
    | error e' n' =>
      rw [seen_error ha, seen_error hb, Prod.mk.injEq, Except.error.injEq] at h
      rw [seen_error (leaving_error ha), seen_error (leaving_error hb), h.1, h.2]

/-! ### What an action keeps -/

/-- An action that keeps a property of machines, whether it returns or not. -/
def Keeps (P : Machine → Prop) (a : Act α) : Prop := ∀ m : Machine, P m → P (a.after m)

theorem Keeps.of_ok (ha : a.Keeps P) (h : a m = .ok x m') (hm : P m) : P m' := by
  have := ha m hm
  rwa [after, h] at this

theorem keeps_pure (x : α) : (pure x : Act α).Keeps P := fun _ hm => hm

theorem keeps_throw (e : Fault) : (throw e : Act α).Keeps P := fun _ hm => hm

theorem Keeps.bind (ha : a.Keeps P) (hf : ∀ x, (f x).Keeps P) : (a >>= f).Keeps P := by
  intro m hm
  have hafter := ha m hm
  cases h : a m with
  | ok x m' =>
    rw [after, h] at hafter
    rw [after, bind_ok h]
    exact hf x m' hafter
  | error e m' =>
    rw [after, h] at hafter
    rwa [after, bind_error h]

theorem keeps_get {k : Machine → Act β} (hk : ∀ m, (k m).Keeps P) : (get >>= k).Keeps P :=
  fun m hm => hk m m hm

theorem keeps_modify {f : Machine → Machine} (hf : ∀ m, P m → P (f m)) :
    (modify f : Act Unit).Keeps P := hf

/-! ### Contained actions -/

/-- An action that leaves the inputs of a machine as they are. -/
def KeepsInputs (a : Act α) : Prop := ∀ x, a.Keeps (·.inputs = x)

theorem KeepsInputs.of_ok (ha : a.KeepsInputs) (h : a m = .ok x m') : m'.inputs = m.inputs :=
  (ha m.inputs).of_ok h rfl

theorem KeepsInputs.bind (ha : a.KeepsInputs) (hf : ∀ x, (f x).KeepsInputs) :
    (a >>= f).KeepsInputs :=
  fun y => (ha y).bind fun x => hf x y

/-- An action that sees only the core of a machine and leaves its inputs as they are. -/
structure Contained (a : Act α) : Prop where
  seen_eq : ∀ {m n : Machine}, m.core = n.core → a.seen m = a.seen n
  keeps : a.KeepsInputs

theorem contained_pure (x : α) : (pure x : Act α).Contained :=
  ⟨fun h => Prod.ext rfl h, fun _ => keeps_pure x⟩

theorem contained_throw (e : Fault) : (throw e : Act α).Contained :=
  ⟨fun h => Prod.ext rfl h, fun _ => keeps_throw e⟩

theorem Contained.bind (ha : a.Contained) (hf : ∀ x, (f x).Contained) : (a >>= f).Contained where
  seen_eq h := seen_bind (ha.seen_eq h) fun x _ _ _ _ hcore => (hf x).seen_eq hcore
  keeps := ha.keeps.bind fun x => (hf x).keeps

/-- Reading the core of the machine is contained. -/
theorem contained_get {k : Machine → Act β} (hk : ∀ m, (k m).Contained)
    (hcore : ∀ m n : Machine, m.core = n.core → k m = k n) : (get >>= k).Contained where
  seen_eq {m n} h := by
    show (k m).seen m = (k n).seen n
    rw [hcore m n h]
    exact (hk n).seen_eq h
  keeps x := keeps_get fun m => (hk m).keeps x

theorem contained_modify {f : Machine → Machine}
    (hcore : ∀ m n : Machine, m.core = n.core → (f m).core = (f n).core)
    (hin : ∀ m, (f m).inputs = m.inputs) : (modify f : Act Unit).Contained :=
  ⟨fun h => Prod.ext rfl (hcore _ _ h), fun _ => keeps_modify fun m hm => (hin m).trans hm⟩

theorem contained_log (level : Log.Level) (channel : Log.Channel) (message : String) :
    (log level channel message).Contained :=
  contained_modify (fun _ _ h => h) fun _ => rfl

theorem contained_enter (entry : Entry) : (enter entry).Contained := by
  refine contained_modify (fun m n h => ?_) fun _ => rfl
  show { m.core with journal := m.core.journal ++ [entry] } = _
  rw [h]; rfl

end Act

/-! ### Contained interpreters -/

open Act

/-- An interpreter whose host code is contained. A command that leads to an operation of the
interpreter itself must be contained too. -/
structure Interpreter.Contained (it : Interpreter) : Prop where
  handler : ∀ id args, (it.host.handler id args).Contained
  method : ∀ m args, (it.host.method m args).Contained
  listener : ∀ id payload, (it.host.listener id payload).Contained
  answer : ∀ code name op, it.dialect.attribute? code = some (name, .operation op) →
    ∀ args, (it.answer op args).Contained

/-- An interpreter that can call all its operations, because nothing stands in front of them. -/
def Interpreter.Intact (it : Interpreter) : Prop := ∀ op, it.dialect.obstacle? op = none

namespace Interpreter

variable {it : Interpreter}

theorem Intact.call_eq {α : Type} (h : it.Intact) (op : Operation) (body : Act α) :
    it.call op body = body := by
  rw [call, require_eq_pure (h op)]
  rfl

theorem contained_require (op : Operation) : (it.require op).Contained := by
  rw [require]
  split
  · exact contained_throw _
  · exact contained_pure _

theorem contained_call {α : Type} {op : Operation} {body : Act α} (h : body.Contained) :
    (it.call op body).Contained :=
  (contained_require op).bind fun _ => h

theorem contained_setModal (code : String) : (setModal code).Contained := by
  have hset : (modify fun m => { m with modal := code } : Act Unit).Contained := by
    refine contained_modify (fun m n h => ?_) fun _ => rfl
    show { m.core with modal := code } = _
    rw [h]; rfl
  refine contained_get (fun m => ?_) fun m n h => ?_
  · dsimp only
    split
    · exact (contained_log ..).bind fun _ => hset
    · exact hset
  · have hm : m.modal = n.modal := Machine.eq_of_core h _ fun _ => rfl
    simp only [hm]

theorem contained_resolveGroup (g : Group) : (resolveGroup g).Contained := by
  refine contained_get (fun m => ?_) fun m n h => ?_
  · exact (contained_setModal _).bind fun _ => contained_pure _
  · have hm : m.modal = n.modal := Machine.eq_of_core h _ fun _ => rfl
    simp only [hm]

theorem contained_callHandler (hit : it.Contained) (code : String) (args : Args) :
    (it.callHandler code args).Contained := by
  refine contained_get (fun m => ?_) fun m n h => ?_
  · split
    · exact (contained_log ..).bind fun _ => (contained_enter _).bind fun _ =>
        (hit.handler _ _).bind fun _ => contained_pure _
    · exact contained_pure _
  · have hm : m.handlers = n.handlers := Machine.eq_of_core h _ fun _ => rfl
    simp only [hm]

theorem contained_callMethod (hit : it.Contained) (code : String) (args : Args) :
    (it.callMethod code args).Contained := by
  rw [callMethod]
  split
  · exact (contained_log ..).bind fun _ => (contained_enter _).bind fun _ =>
      (hit.method _ _).bind fun _ => contained_pure _
  · rename_i name op hop
    exact (contained_log ..).bind fun _ => (hit.answer code name op hop args).bind fun _ =>
      contained_pure _
  · refine (contained_log ..).bind fun _ => ?_
    split
    · exact contained_throw _
    · exact contained_pure _
  · dsimp only
    split
    · exact (contained_throw _).bind fun _ => contained_pure _
    · exact contained_pure _
  · exact contained_pure _

theorem contained_dispatch (hit : it.Contained) (c : Command) : (it.dispatch c).Contained := by
  rw [dispatch]
  split
  · exact (contained_log ..).bind fun _ => contained_pure _
  · refine (contained_callHandler hit _ _).bind fun h => ?_
    refine (contained_callMethod hit _ _).bind fun r => ?_
    dsimp only
    split
    · exact (contained_log ..).bind fun _ => contained_pure _
    · exact contained_pure _

theorem contained_interpretGroups (hit : it.Contained) : ∀ gs : List Group,
    (it.interpretGroups gs).Contained
  | [] => contained_pure _
  | g :: gs =>
    (contained_resolveGroup g).bind fun c => (contained_dispatch hit c).bind fun _ =>
      (contained_interpretGroups hit gs).bind fun _ => contained_pure _

theorem contained_interpret (hit : it.Contained) (ws : List Word) : (it.interpret ws).Contained :=
  contained_call (contained_interpretGroups hit _)

theorem contained_linesOf (r : Reading) : (linesOf r).Contained := by
  have hwarn : (warn r.warnings).Contained := contained_modify (fun _ _ h => h) fun _ => rfl
  refine hwarn.bind fun _ => ?_
  cases r.lines with
  | ok ls => exact contained_pure ls
  | error f => exact contained_throw f

theorem contained_tell (hit : it.Contained) (e : Event) (payload : List Payload) :
    ∀ rs : List Registration, (it.tell e payload rs).Contained
  | [] => contained_pure _
  | r :: rs => by
    have hrest : (do
        Act.enter (.listener r.listener payload)
        it.host.listener r.listener payload
        it.tell e payload rs : Act Unit).Contained :=
      (contained_enter _).bind fun _ => (hit.listener _ _).bind fun _ =>
        contained_tell hit e payload rs
    have hremove : (modify fun m => { m with registry := m.registry.removeKey e r.key }
        : Act Unit).Contained := by
      refine contained_modify (fun m n h => ?_) fun _ => rfl
      show { m.core with registry := m.core.registry.removeKey e r.key } = _
      rw [h]; rfl
    rw [tell]
    dsimp only
    split
    · exact (contained_call hremove).bind fun _ => hrest
    · exact hrest

theorem contained_emit (hit : it.Contained) (e : Event) (payload : List Payload) :
    (it.emit e payload).Contained := by
  refine contained_call (contained_call (contained_get (fun m => ?_) fun m n h => ?_))
  · exact (contained_tell hit e payload _).bind fun _ => contained_pure _
  · have hm : m.registry = n.registry := Machine.eq_of_core h _ fun _ => rfl
    simp only [hm]

theorem contained_deliver (hit : it.Contained) : ∀ ls : List Line, (it.deliver ls).Contained
  | [] => contained_pure _
  | l :: ls =>
    (contained_call ((contained_emit hit _ _).bind fun _ =>
      (contained_interpret hit l.words).bind fun _ => contained_pure _)).bind fun _ =>
        contained_deliver hit ls

end Interpreter

end Gcode
