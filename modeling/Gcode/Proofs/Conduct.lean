import Gcode.Interpreter.Tasks
import Gcode.Proofs.Turns

/-!
Conduct. What host code is asked to respect is a relation between the machine before and after it is
called: that a part of the machine stays as it is, or that nothing is taken away. If the relation
also allows what the library itself does around these calls, then giving a notice and dispatching a
command respect it, whether they return or not; and if it allows what is done to sources and
streams, so does every turn of a task (`Habits.moves_advance`).
-/

namespace Gcode

/-- Adds a task, which the interpreter knows as its own and which waits for its first turn. -/
def Machine.addTask (m : Machine) (task : Task) : Machine :=
  { m with
    tasks := m.tasks ++ [task]
    current := some m.tasks.length
    queue := m.queue ++ [m.tasks.length] }

/-- The record of a load that is started while another one is running. -/
def Log.overlap : Log.Record :=
  ⟨.warning, .loading, "Starting a load while the previous one is still running"⟩

/-- Does the part of the library that speaks tell of commands: of the modal command, or of what is
dispatched? -/
def Log.Channel.tellsOfCommands : Log.Channel → Bool
  | .modal | .dispatch => true
  | _ => false

/-- Is it a call of a handler, a method or a listener? -/
def Entry.isCall : Entry → Bool
  | .handler _ _ | .method _ _ | .listener _ _ => true
  | _ => false

/-- The call of host code that an entry of the journal is about. -/
def Entry.call (it : Interpreter) : Entry → Act Unit
  | .handler id args => it.host.handler id args >>= fun _ => pure ()
  | .method mt args => it.host.method mt args >>= fun _ => pure ()
  | .listener id payload => it.host.listener id payload
  | .callback id outcome => it.host.callback id outcome
  | .lineDone id index line _ => it.host.lineDone id line index
  | .emitted _ | .loaded _ => pure ()

namespace Act

variable {α β : Type} {R : Machine → Machine → Prop} {a : Act α} {f : α → Act β} {m m' : Machine}

/-- What an action gives makes no difference to the machine that it leaves. -/
theorem after_dropped (a : Act α) (m : Machine) : (a >>= fun _ => pure ()).after m = a.after m := by
  cases ha : a m with
  | ok x m' => rw [after, bind_ok ha, after, ha]; rfl
  | error f m' => rw [after, bind_error ha, after, ha]

/-- An action after which the machine stands in a relation to the machine before, whether the action
returns or not. -/
def Moves (R : Machine → Machine → Prop) (a : Act α) : Prop := ∀ m, R m (a.after m)

theorem Moves.of_ok {x : α} (ha : a.Moves R) (h : a m = .ok x m') : R m m' := by
  have := ha m
  rwa [after, h] at this

theorem Moves.of_error {e : Fault} (ha : a.Moves R) (h : a m = .error e m') : R m m' := by
  have := ha m
  rwa [after, h] at this

theorem Moves.mono {R' : Machine → Machine → Prop} (ha : a.Moves R) (h : ∀ m m', R m m' → R' m m') :
    a.Moves R' :=
  fun m => h m _ (ha m)

/-- A relation that holds as long as nothing is done, and from one action to the next. -/
structure Steady (R : Machine → Machine → Prop) : Prop where
  refl : ∀ m, R m m
  trans : ∀ {m m' m''}, R m m' → R m' m'' → R m m''

/-- That a part of the machine stays as it is. -/
theorem steady_part {γ : Type} (part : Machine → γ) : Steady fun m m' => part m' = part m :=
  ⟨fun _ => rfl, fun h h' => h'.trans h⟩

namespace Steady

theorem nothing (h : Steady R) (x : α) : (pure x : Act α).Moves R := h.refl

theorem stops (h : Steady R) (e : Fault) : (throw e : Act α).Moves R := h.refl

/-- What follows need respect the relation only on the machine that the first action leaves. -/
theorem follows_from (h : Steady R) (ha : R m (a.after m))
    (hf : ∀ x m', a m = .ok x m' → R m' ((f x).after m')) : R m ((a >>= f).after m) := by
  cases hm : a m with
  | ok x m' =>
    rw [after, hm] at ha
    rw [after, bind_ok hm]
    exact h.trans ha (hf x m' hm)
  | error e m' =>
    rw [after, hm] at ha
    rwa [after, bind_error hm]

theorem follows_at (h : Steady R) (ha : R m (a.after m)) (hf : ∀ x, (f x).Moves R) :
    R m ((a >>= f).after m) :=
  h.follows_from ha fun x m' _ => hf x m'

theorem follows (h : Steady R) (ha : a.Moves R) (hf : ∀ x, (f x).Moves R) : (a >>= f).Moves R :=
  fun m => h.follows_at (ha m) hf

theorem gives (h : Steady R) (r : Except Fault α) : (ofExcept r).Moves R := by
  cases r with
  | ok x => exact h.nothing x
  | error e => exact h.stops e

theorem requires (h : Steady R) (it : Interpreter) (op : Operation) : (it.require op).Moves R := by
  rw [Interpreter.require]
  split
  · exact h.stops _
  · exact h.nothing _

theorem calls (h : Steady R) (it : Interpreter) (op : Operation) {body : Act α}
    (hbody : body.Moves R) : (it.call op body).Moves R :=
  h.follows (h.requires it op) fun _ => hbody

end Steady

theorem looks {k : Machine → Act β} (hk : ∀ m, (k m).Moves R) : (get >>= k).Moves R :=
  fun m => hk m m

theorem attempts (ha : a.Moves R) : a.attempt.Moves R := by
  intro m
  cases hm : a m with
  | ok x m' =>
    rw [after, attempt_ok hm]
    exact ha.of_ok hm
  | error e m' =>
    rw [after, attempt_error hm]
    exact ha.of_error hm

/-- A relation that allows to write to the log, though not about commands. -/
structure Logging (R : Machine → Machine → Prop) : Prop extends Steady R where
  log : ∀ (m : Machine) (records : List Log.Record),
    (∀ r ∈ records, r.channel.tellsOfCommands = false) → R m { m with log := m.log ++ records }

theorem Logging.writes (h : Logging R) (level : Log.Level) {channel : Log.Channel}
    (message : String) (hchannel : channel.tellsOfCommands = false) :
    (Act.log level channel message).Moves R :=
  fun m => h.log m _ (by simpa using hchannel)

/-- A relation that allows what a load does to its source while it is read, too. -/
structure Usage (R : Machine → Machine → Prop) : Prop extends Logging R where
  read : ∀ m i (s : Stream) size, m.streams[i]? = some s →
    R m (m.updateStream i fun _ => (s.read size).2)
  wraps : ∀ (m : Machine) src, R m (m.addSource src)
  total : ∀ m i total, R m (m.updateSource i fun src => { src with total })
  count : ∀ (m : Machine) is length, R m (m.countRead is length)

/-- A relation that allows all that the library does to sources and streams: they are opened and
closed, too. -/
structure Upkeep (R : Machine → Machine → Prop) : Prop extends Usage R where
  close : ∀ m i, R m (m.updateStream i Stream.close)
  opens : ∀ (m : Machine) s, R m (m.addStream s)

end Act

open Act

/-- A relation that is respected when listeners are told something, and that allows to take out a
registration. -/
structure Interpreter.Hearing (it : Interpreter) (payload : List Payload)
    (R : Machine → Machine → Prop) : Prop extends Logging R where
  told : ∀ id,
    (Act.enter (.listener id payload) >>= fun _ => it.host.listener id payload).Moves R
  spend : ∀ (m : Machine) (e : Event) (key : Nat),
    R m { m with registry := m.registry.removeKey e key }

/-- A relation that listeners respect whatever they are told, and that allows to enter calls of host
code in the journal. -/
structure Interpreter.Telling (it : Interpreter) (R : Machine → Machine → Prop) : Prop extends
    Logging R where
  call : ∀ (m : Machine) (x : Entry), x.isCall → R m { m with journal := m.journal ++ [x] }
  spend : ∀ (m : Machine) (e : Event) (key : Nat),
    R m { m with registry := m.registry.removeKey e key }
  listener : ∀ id payload, (it.host.listener id payload).Moves R

/-- Such a relation that handlers and methods respect as well, and operations that answer to a
command; the log may tell of commands, too. -/
structure Interpreter.Conduct (it : Interpreter) (R : Machine → Machine → Prop) : Prop extends
    it.Telling R where
  deals : ∀ (m : Machine) (r : Log.Record), R m { m with log := m.log ++ [r] }
  handler : ∀ id args, (it.host.handler id args).Moves R
  method : ∀ mt args, (it.host.method mt args).Moves R
  answer : ∀ code name op, it.dialect.attribute? code = some (name, .operation op) →
    ∀ args, (it.answer op args).Moves R

/-- A relation that host code respects, and that allows what is done when lines are carried out: the
modal command may change too. -/
structure Interpreter.Delivery (it : Interpreter) (R : Machine → Machine → Prop) : Prop extends
    it.Conduct R where
  modal : ∀ m modal, R m { m with modal }

/-- A relation that host code respects, and that allows what a load does from its first read to the
announcement of its end. -/
structure Interpreter.Loading (it : Interpreter) (R : Machine → Machine → Prop) : Prop extends
    it.Delivery R, Usage R

/-- A relation that host code respects, callbacks too, and that allows all that a load does. -/
structure Interpreter.Habits (it : Interpreter) (R : Machine → Machine → Prop) : Prop extends
    it.Loading R, Upkeep R where
  told : ∀ (m : Machine) id outcome, R m { m with journal := m.journal ++ [.callback id outcome] }
  callback : ∀ id outcome, (it.host.callback id outcome).Moves R

/-! ### Background loads -/

namespace Act

open Interpreter

variable {it : Interpreter} {R : Machine → Machine → Prop}

/-- A relation that allows to start a load is respected when one is asked for, if it is when the
callback is told why that cannot be done. -/
theorem Logging.moves_schedule (h : Logging R) {origin : Origin} {callback : Option String}
    (hstart : ∀ m : Machine, R m (m.addTask { origin, callback }))
    (hcomplete : ∀ f, (it.complete callback (.error f)).Moves R) :
    (it.schedule origin callback).Moves R := by
  refine h.calls it _ <| h.calls it _ <| looks fun m => ?_
  cases it.obstacleToStart? with
  | none =>
    dsimp only
    split
    · exact h.follows (h.writes _ _ (by rfl)) fun _ => hstart
    · exact hstart
  | some f =>
    have hlogs : (Act.log .error .loading ("Failed to start G-code load: " ++ f.text)).Moves R :=
      h.writes _ _ rfl
    have hfails := h.follows hlogs fun _ => hcomplete f
    dsimp only
    split
    · exact h.follows (h.writes _ _ (by rfl)) fun _ => hfails
    · exact hfails

/-- To cancel a load changes a task, or nothing. -/
theorem Steady.moves_cancel (h : Steady R)
    (hmark : ∀ (m : Machine) i, R m (m.updateTask i fun t => { t with cancelled := true })) :
    cancel.Moves R := by
  intro m
  rw [after, cancel, get_bind]
  rcases m.current with _ | i
  · exact h.refl m
  rcases m.currentTask? with _ | task
  · exact h.refl m
  cases hdone : task.stage.isDone with
  | true =>
    simp only [hdone, if_true]
    exact h.refl m
  | false =>
    simp only [hdone, Bool.false_eq_true, if_false]
    exact hmark m i

/-- An operation that answers to a command makes the interpreter anew, reports or starts a load; or
it does nothing. -/
theorem Steady.moves_answer (h : Steady R) {op : Operation} {args : Args}
    (hrenew : op = .create → (it.renew args).Moves R)
    (hreport : ∀ x : Literal, (it.report x.render (.plain x)).Moves R)
    (hschedule : ∀ origin, (it.schedule origin none).Moves R) : (it.answer op args).Moves R := by
  have hcall : ∀ op (f : Fault), (it.call op (throw f) : Act Unit).Moves R :=
    fun op f => h.calls it op (h.stops f)
  unfold answer
  dsimp only
  split
  · exact h.stops _
  split
  · exact hrenew rfl
  · exact h.stops _
  · exact hreport _
  · exact hschedule _
  · exact hschedule _
  · exact hschedule _
  · exact h.stops _
  · exact hcall _ _
  · exact h.stops _
  · exact hcall _ _
  · exact hcall _ _
  · exact hcall _ _
  · exact h.nothing ()

end Act

namespace Interpreter

variable {it : Interpreter} {R : Machine → Machine → Prop}

/-- On a running event loop a load can be started. That is warned of if the task that the
interpreter knows as its own is still running. -/
theorem schedule_eq (hintact : it.Intact) (hloop : it.hasLoop = true) (origin : Origin)
    (callback : Option String) (m : Machine) :
    it.schedule origin callback m = .ok ()
      ({ m with log := m.log ++ if m.loading then [Log.overlap] else [] }.addTask
        { origin, callback }) := by
  have hstart : it.obstacleToStart? = none := by
    rw [obstacleToStart?, if_pos hloop, hintact]
  rw [schedule, hintact.call_eq, hintact.call_eq, get_bind, hstart]
  split
  · rfl
  · rw [List.append_nil]
    rfl

/-! ### Notices and commands -/

namespace Hearing

variable {payload : List Payload}

theorem moves_tell (h : it.Hearing payload R) (e : Event) : ∀ rs : List Registration,
    (it.tell e payload rs).Moves R
  | [] => h.nothing _
  | r :: rs => by
    have hrest : (do
        Act.enter (.listener r.listener payload)
        it.host.listener r.listener payload
        it.tell e payload rs : Act Unit).Moves R := by
      have htold := h.follows (h.told r.listener) fun _ => moves_tell h e rs
      rwa [bind_assoc] at htold
    rw [tell]
    dsimp only
    split
    · exact h.follows (h.calls it .unlisten fun m => h.spend m e r.key) fun _ => hrest
    · exact hrest

theorem moves_notify (h : it.Hearing payload R) (e : Event) : (it.notify e payload).Moves R :=
  looks fun _ => h.follows (h.moves_tell e _) fun _ => h.nothing _

theorem moves_emit (h : it.Hearing payload R) (e : Event) : (it.emit e payload).Moves R :=
  h.calls it _ <| h.calls it _ <| h.moves_notify e

theorem moves_report {x : Payload} (h : it.Hearing [x] R) (shown : String) :
    (it.report shown x).Moves R :=
  h.calls it _ <| h.follows (h.writes _ _ (by rfl)) fun _ => h.follows (h.moves_emit _) fun _ =>
    h.nothing _

end Hearing

namespace Telling

theorem hearing (h : it.Telling R) (payload : List Payload) : it.Hearing payload R :=
  { h with told := fun id => h.follows (fun m => h.call m _ rfl) fun _ => h.listener id payload }

theorem moves_emit (h : it.Telling R) (e : Event) (payload : List Payload) :
    (it.emit e payload).Moves R :=
  (h.hearing payload).moves_emit e

theorem moves_announceFault (h : it.Telling R) (f : Fault) : (it.announceFault f).Moves R :=
  (h.hearing _).moves_report _

/-- An operation that answers to a command respects a relation that allows what it may come to: to
make the interpreter anew, to start a load or to report. -/
theorem moves_answer (h : it.Telling R) (hrenew : ∀ args, (it.renew args).Moves R)
    (hstart : ∀ (m : Machine) (task : Task), R m (m.addTask task)) (op : Operation) (args : Args) :
    (it.answer op args).Moves R :=
  h.toSteady.moves_answer (fun _ => hrenew args) (fun _ => (h.hearing _).moves_report _)
    fun _ => h.toLogging.moves_schedule (fun m => hstart m _) fun _ => h.nothing ()

end Telling

namespace Conduct

theorem speaks (h : it.Conduct R) (level : Log.Level) (channel : Log.Channel) (message : String) :
    (Act.log level channel message).Moves R :=
  fun m => h.deals m _

theorem moves_callHandler (h : it.Conduct R) (code : String) (args : Args) :
    (it.callHandler code args).Moves R := by
  refine looks fun m => ?_
  split
  · exact h.follows (h.speaks _ _ _) fun _ => h.follows (fun m => h.call m _ rfl) fun _ =>
      h.follows (h.handler _ _) fun _ => h.nothing _
  · exact h.nothing _

theorem moves_callMethod (h : it.Conduct R) (code : String) (args : Args) :
    (it.callMethod code args).Moves R := by
  rw [callMethod]
  split
  · exact h.follows (h.speaks _ _ _) fun _ => h.follows (fun m => h.call m _ rfl) fun _ =>
      h.follows (h.method _ _) fun _ => h.nothing _
  · rename_i name op hop
    exact h.follows (h.speaks _ _ _) fun _ => h.follows (h.answer code name op hop args) fun _ =>
      h.nothing _
  · refine h.follows (h.speaks _ _ _) fun _ => ?_
    split
    · exact h.stops _
    · exact h.nothing _
  · dsimp only
    split
    · exact h.follows (h.stops _) fun _ => h.nothing _
    · exact h.nothing _
  · exact h.nothing _

theorem moves_dispatch (h : it.Conduct R) (c : Command) : (it.dispatch c).Moves R := by
  rw [dispatch]
  split
  · exact h.follows (h.speaks _ _ _) fun _ => h.nothing _
  · refine h.follows (h.moves_callHandler _ _) fun called => ?_
    refine h.follows (h.moves_callMethod _ _) fun r => ?_
    dsimp only
    split
    · exact h.follows (h.speaks _ _ _) fun _ => h.nothing _
    · exact h.nothing _

end Conduct

namespace Delivery

theorem moves_resolveGroup (h : it.Delivery R) (g : Group) : (resolveGroup g).Moves R := by
  have hset : ∀ code, (setModal code).Moves R := by
    intro code
    refine looks fun m => ?_
    dsimp only
    split
    · exact h.follows (h.speaks _ _ _) fun _ => fun m => h.modal m code
    · exact fun m => h.modal m code
  exact looks fun _ => h.follows (hset _) fun _ => h.nothing _

theorem moves_interpretGroups (h : it.Delivery R) : ∀ gs : List Group,
    (it.interpretGroups gs).Moves R
  | [] => h.nothing _
  | g :: gs =>
    h.follows (h.moves_resolveGroup g) fun c => h.follows (h.moves_dispatch c) fun _ =>
      h.follows (h.moves_interpretGroups gs) fun _ => h.nothing _

theorem moves_interpret (h : it.Delivery R) (ws : List Word) : (it.interpret ws).Moves R :=
  h.calls it _ (h.moves_interpretGroups _)

theorem moves_deliver (h : it.Delivery R) : ∀ ls : List Line, (it.deliver ls).Moves R
  | [] => h.nothing _
  | l :: ls =>
    h.follows (h.calls it _ <| h.follows (h.moves_emit _ _) fun _ =>
      h.follows (h.moves_interpret l.words) fun _ => h.nothing _) fun _ => h.moves_deliver ls

end Delivery

end Interpreter

/-! ### Sources -/

namespace Act.Usage

open Interpreter

variable {R : Machine → Machine → Prop}

theorem moves_sourceAt (h : Usage R) (i : Nat) : (sourceAt i).Moves R := by
  refine looks fun m => ?_
  split
  · exact h.nothing _
  · exact h.stops _

theorem moves_streamAt (h : Usage R) (i : Nat) : (streamAt i).Moves R := by
  refine looks fun m => ?_
  split
  · exact h.nothing _
  · exact h.stops _

theorem moves_readsLeft (h : Usage R) (i : Nat) : (readsLeft i).Moves R :=
  h.follows (h.moves_sourceAt i) fun _ => h.follows (h.moves_streamAt _) fun _ => h.nothing _

theorem moves_take (h : Usage R) (i : Nat) (size : Int) : (take i size).Moves R := by
  intro m
  by_cases hm : ∃ src s, m.Reads i src s
  · obtain ⟨src, s, hm⟩ := hm
    obtain ⟨got, s', hread⟩ : ∃ got s', s.read size = (got, s') := ⟨_, _, rfl⟩
    have hafter : (take i size).after m = m.updateStream src.stream fun _ => (s.read size).2 := by
      rw [after, take, bind_ok (sourceAt_eq hm.source), bind_ok (streamAt_eq hm.stream), hread]
      cases got <;> rfl
    rw [hafter]
    exact h.read m _ s size hm.stream
  · have hnone : take i size m = .error .noSource m :=
      missing_eq (fun src s hm' => hm ⟨src, s, hm'⟩) _
    rw [after, hnone]
    exact h.refl m

theorem moves_accept (h : Usage R) (i : Nat) (data : Literal) : (accept i data).Moves R := by
  intro m
  cases hp : Piece.ofLiteral? data with
  | some p =>
    rw [after, accept_eq_ok hp]
    exact h.count m _ _
  | none =>
    rw [after, accept, get_bind, hp]
    cases m.sourceNames (m.passage i) <;> exact h.refl m

theorem moves_addSource (h : Usage R) (src : Source) : (addSource src).Moves R :=
  fun m => h.wraps m src

theorem moves_wrap (h : Usage R) (handle : Handle) (total name : Literal) :
    (wrap handle total name).Moves R := by
  cases handle with
  | missing => exact h.stops _
  | unreadable type => exact h.stops _
  | stream i => exact h.follows (h.moves_streamAt i) fun _ => h.moves_addSource _
  | source i => exact h.follows (h.moves_sourceAt i) fun _ => h.moves_addSource _

theorem moves_sourceOf (h : Usage R) (handle : Handle) : (sourceOf handle).Moves R := by
  rw [sourceOf.eq_def]
  split
  · exact h.nothing _
  · exact h.moves_wrap _ _ _

theorem moves_setTotal (h : Usage R) (i : Nat) (total : Literal) : (setTotal i total).Moves R := by
  cases total with
  | null => exact h.nothing ()
  | _ => exact fun m => h.total m i _

theorem moves_prepare (h : Usage R) (it : Interpreter) (handle : Handle) (total : Literal) :
    (it.prepare handle total).Moves R :=
  h.calls it _ <| h.calls it _ <| h.follows (h.moves_sourceOf handle) fun _ =>
    h.follows (h.moves_setTotal _ total) fun _ => h.follows (h.gives _) fun _ =>
      h.follows (h.moves_sourceAt _) fun _ => h.follows (h.writes _ _ rfl) fun _ =>
        looks fun _ => h.nothing _

theorem moves_linesOf (h : Usage R) (r : Reading) : (linesOf r).Moves R :=
  h.follows (fun m => h.log m _ (by simp [Log.Channel.tellsOfCommands])) fun _ => h.gives _

/-! ### Turns -/

/-- What the data of a read leads to is all that matters of a turn. -/
theorem moves_proceed {it : Interpreter} (h : Usage R)
    (hreceive : ∀ load data, (it.receive load data).Moves R) : ∀ (limit : Nat) (load : Load),
    (it.proceed limit load).Moves R := by
  intro limit
  induction limit with
  | zero =>
    intro load
    rw [proceed.eq_def]
    refine h.follows (h.moves_sourceAt _) fun src => h.follows (h.moves_streamAt _) fun s => ?_
    rcases s.waits with _ | _ | left
    · exact h.follows (h.moves_take _ _) fun _ => h.nothing _
    · exact h.nothing _
    · exact h.nothing _
  | succ limit ih =>
    intro load
    rw [proceed.eq_def]
    refine h.follows (h.moves_sourceAt _) fun src => h.follows (h.moves_streamAt _) fun s => ?_
    rcases s.waits with _ | _ | left
    · exact h.follows (h.moves_take _ _) fun _ => h.nothing _
    · refine h.follows (h.moves_take _ _) fun data => h.follows (hreceive load data) ?_
      rintro (load' | ls)
      · exact ih load'
      · exact h.nothing _
    · exact h.nothing _

theorem moves_advanceRest {it : Interpreter} (h : Usage R)
    (hreceive : ∀ load data, (it.receive load data).Moves R) (r : Load ⊕ List Line) :
    (it.advanceRest r).Moves R := by
  cases r with
  | inl load => exact h.follows (h.moves_readsLeft _) fun n => h.moves_proceed hreceive n load
  | inr ls => exact h.nothing _

theorem moves_begin {it : Interpreter} (h : Usage R)
    (hreceive : ∀ load data, (it.receive load data).Moves R) (handle : Handle) (total : Literal) :
    (it.begin handle total).Moves R := by
  rw [begin_eq]
  exact h.follows (h.moves_prepare it handle total) fun load =>
    h.moves_advanceRest hreceive (.inl load)

theorem moves_resume {it : Interpreter} (h : Usage R)
    (hreceive : ∀ load data, (it.receive load data).Moves R) (load : Load) :
    (it.resume load).Moves R := by
  have hwith : ∀ data, (it.advanceWith load data).Moves R := by
    intro data
    rw [advanceWith_eq]
    exact h.follows (hreceive load data) (h.moves_advanceRest hreceive)
  rw [resume]
  split
  · exact hwith _
  · exact h.follows (h.moves_take _ _) hwith
  · exact h.nothing _

end Act.Usage

namespace Act.Upkeep

open Interpreter

variable {R : Machine → Machine → Prop}

theorem moves_addStreamSource (h : Upkeep R) (s : Stream) (total name : Literal) :
    (addStreamSource s total name).Moves R :=
  fun m => h.trans (h.opens m s) (h.moves_wrap (.stream m.streams.length) total name _)

theorem moves_openText (h : Upkeep R) (x : Literal) : (openText x).Moves R := by
  rw [openText.eq_def]
  split
  all_goals first | exact h.moves_addStreamSource _ _ _ | exact h.stops _

theorem moves_openOrigin (h : Upkeep R) (it : Interpreter) (origin : Origin) :
    (it.openOrigin origin).Moves R := by
  cases origin with
  | text x => exact h.follows (h.moves_openText x) fun _ => h.nothing _
  | file path =>
    have hopen : (it.openFile path).Moves R :=
      h.follows (h.gives _) fun _ => h.follows (h.gives _) fun _ =>
        h.follows (h.writes _ _ rfl) fun _ => h.moves_addStreamSource _ _ _
    exact h.follows hopen fun _ => h.nothing _
  | stream handle => exact h.nothing _

theorem closeSource (h : Upkeep R) (m : Machine) (i : Nat) : R m (m.closeSource i) := by
  rw [Machine.closeSource]
  split
  · exact h.close m _
  · exact h.refl m

theorem moves_release (h : Upkeep R) (task : Task) (handle : Handle) :
    (release task handle).Moves R := by
  rw [release]
  split
  · intro m
    show R m (m.closeHandle handle)
    cases handle with
    | source i => exact h.closeSource m i
    | _ => exact h.refl m
  · exact h.nothing ()

end Act.Upkeep

/-! ### Tasks -/

namespace Interpreter.Loading

variable {it : Interpreter} {R : Machine → Machine → Prop}

theorem moves_ingest (h : it.Loading R) (load : Load) (p : Piece) : (it.ingest load p).Moves R :=
  h.follows (h.moves_linesOf _) fun ls => h.follows (h.moves_deliver ls) fun _ =>
    h.follows (h.follows (h.moves_sourceAt _) fun _ => h.follows (h.moves_emit _ _) fun _ =>
      h.nothing _) fun _ => h.nothing _

theorem moves_finish (h : it.Loading R) (load : Load) : (it.finish load).Moves R :=
  h.follows (h.moves_linesOf _) fun ls => h.follows (h.moves_deliver ls) fun _ =>
    h.follows (h.moves_linesOf _) fun ls => h.follows (h.moves_deliver ls) fun _ => h.nothing _

theorem moves_receive (h : it.Loading R) (load : Load) (data : Literal) :
    (it.receive load data).Moves R := by
  refine h.follows (h.moves_accept _ _) fun p => ?_
  split
  · exact h.follows (h.moves_finish load) fun _ => h.nothing _
  · exact h.follows (h.moves_ingest load p) fun _ => h.nothing _

theorem moves_announced (h : it.Loading R) {turn : Act Turn} (hturn : turn.Moves R) :
    (it.announced turn).Moves R := by
  refine h.follows (attempts hturn) ?_
  rintro (f | load | ls)
  · dsimp only
    split
    · exact h.follows (h.moves_announceFault f) fun _ => h.stops f
    · exact h.stops f
  · exact h.nothing _
  · exact h.follows (looks fun _ => h.writes _ _ rfl) fun _ =>
      h.follows (h.moves_emit _ _) fun _ => h.nothing _

end Interpreter.Loading

namespace Interpreter.Habits

variable {it : Interpreter} {R : Machine → Machine → Prop}

theorem moves_complete (h : it.Habits R) (callback : Option String) (outcome : Outcome) :
    (it.complete callback outcome).Moves R := by
  cases callback with
  | none => exact h.nothing ()
  | some id => exact h.follows (fun m => h.told m id outcome) fun _ => h.callback id outcome

theorem moves_runTurn (h : it.Habits R) (task : Task) (handle : Handle) {turn : Act Turn}
    (hturn : turn.Moves R) : (it.runTurn task handle turn).Moves R := by
  refine h.follows (attempts (h.moves_announced hturn)) ?_
  rintro (f | load | ls)
  · dsimp only
    split
    · exact h.follows (attempts (h.moves_complete _ _)) fun _ =>
        h.follows (h.moves_release _ _) fun _ => h.nothing _
    · exact h.follows (h.moves_release _ _) fun _ => h.nothing _
  · exact h.nothing _
  · exact h.follows (h.moves_release _ _) fun _ =>
      h.follows (attempts (h.moves_complete _ _)) fun _ => h.nothing _

/-- A turn of a task respects a relation that allows all that a load does, until the task comes to
its next stage. -/
theorem moves_advance (h : it.Habits R) (task : Task) : (it.advance task).Moves R := by
  have hcancel : (cancelTask task).Moves R := by
    rw [cancelTask]
    split
    · exact h.follows (h.moves_release _ _) fun _ => h.nothing _
    · exact h.nothing _
  have hstart : (it.startTask task).Moves R := by
    refine h.follows (attempts (h.moves_openOrigin it _)) ?_
    rintro (f | handle)
    · dsimp only
      split
      · exact h.follows (attempts (h.follows (h.moves_announceFault f) fun _ =>
          h.moves_complete _ _)) fun _ => h.nothing _
      · exact h.nothing _
    · exact h.moves_runTurn task handle (h.moves_begin h.moves_receive handle .null)
  rw [advance]
  split
  · exact h.nothing _
  · split
    · exact hcancel
    · exact hstart
  · split
    · exact hcancel
    · exact h.moves_runTurn task _ (h.moves_resume h.moves_receive _)

end Interpreter.Habits

end Gcode
