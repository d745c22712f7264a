import Gcode.Proofs.Schedules

/-!
The moments at which host code is called. Something may hold of the machine that neither the library
nor host code ever undoes. Then host code is called while it holds and at no other moment, so host
code that would do something else at other moments makes no difference. Main statement: any host
code that does the same while something holds throughout leads to the same moments of a schedule
(`runs_withHost`).
-/

namespace Gcode

open Act

/-- What held before still holds. -/
def Machine.Keeping (P : Machine → Prop) (m m' : Machine) : Prop := P m → P m'

theorem Machine.steady_keeping (P : Machine → Prop) : Steady (Keeping P) where
  refl _ hm := hm
  trans h h' hm := h' (h hm)

/-! ### Actions that do the same -/

/-- Two actions do the same while something holds of the machine. -/
def Act.Alike {α : Type} (P : Machine → Prop) (a b : Act α) : Prop := ∀ m, P m → a m = b m

namespace Act.Alike

variable {α β : Type} {P : Machine → Prop} {a b : Act α} {f g : α → Act β}

theorem refl (P : Machine → Prop) (a : Act α) : Alike P a a := fun _ _ => rfl

/-- What follows is done on a machine of which the same still holds. -/
theorem follows (h : Alike P a b) (hkeep : a.Moves (Machine.Keeping P))
    (hf : ∀ x, Alike P (f x) (g x)) : Alike P (a >>= f) (b >>= g) := by
  intro m hm
  rw [← bind_congr_left (h m hm)]
  cases ha : a m with
  | ok x m' =>
    rw [bind_ok ha, bind_ok ha]
    exact hf x m' (hkeep.of_ok ha hm)
  | error e m' => rw [bind_error ha, bind_error ha]

/-- What comes first does not depend on host code. -/
theorem after (hkeep : a.Moves (Machine.Keeping P)) (hf : ∀ x, Alike P (f x) (g x)) :
    Alike P (a >>= f) (a >>= g) :=
  (refl P a).follows hkeep hf

/-- What comes last does not depend on host code. -/
theorem before (h : Alike P a b) (f : α → Act β) : Alike P (a >>= f) (b >>= f) :=
  fun m hm => bind_congr_left (h m hm) f

theorem looks {k l : Machine → Act β} (h : ∀ m, Alike P (k m) (l m)) :
    Alike P (get >>= k) (get >>= l) :=
  fun m hm => h m m hm

theorem attempts (h : Alike P a b) : Alike P a.attempt b.attempt :=
  fun m hm => attempt_congr (h m hm)

theorem calls (it : Interpreter) (op : Operation) (h : Alike P a b) :
    Alike P (it.call op a) (it.call op b) :=
  after ((Machine.steady_keeping P).requires it op) fun _ => h

end Act.Alike

/-- The interpreter with other host code. -/
def Interpreter.withHost (it : Interpreter) (host : Host) : Interpreter := { it with host }

/-- Other host code does the same while something holds of the machine. -/
structure Host.Alike (P : Machine → Prop) (host host' : Host) : Prop where
  handler : ∀ id args, (host.handler id args).Alike P (host'.handler id args)
  method : ∀ mt args, (host.method mt args).Alike P (host'.method mt args)
  listener : ∀ id payload, (host.listener id payload).Alike P (host'.listener id payload)
  callback : ∀ id outcome, (host.callback id outcome).Alike P (host'.callback id outcome)

theorem Host.Alike.mono {P Q : Machine → Prop} {host host' : Host} (h : Host.Alike P host host')
    (hQ : ∀ m, Q m → P m) : Host.Alike Q host host' where
  handler id args m hm := h.handler id args m (hQ m hm)
  method mt args m hm := h.method mt args m (hQ m hm)
  listener id payload m hm := h.listener id payload m (hQ m hm)
  callback id outcome m hm := h.callback id outcome m (hQ m hm)

/-- Something that the library and host code never undo, and other host code that does the same
while it holds. -/
structure Interpreter.Throughout (it : Interpreter) (P : Machine → Prop) (host : Host) : Prop
    extends Host.Alike P it.host host where
  keeps : it.Habits (Machine.Keeping P)

namespace Interpreter.Throughout

variable {it : Interpreter} {P : Machine → Prop} {host : Host}

/-! ### Notices and commands -/

theorem alike_tell (h : it.Throughout P host) (e : Event) (payload : List Payload) :
    ∀ rs : List Registration, Alike P (it.tell e payload rs) ((it.withHost host).tell e payload rs)
  | [] => .refl P _
  | r :: rs => by
    have hear := h.keeps.hearing payload
    have hrest : Alike P
        (Act.enter (.listener r.listener payload) >>= fun _ =>
          it.host.listener r.listener payload >>= fun _ => it.tell e payload rs)
        (Act.enter (.listener r.listener payload) >>= fun _ =>
          host.listener r.listener payload >>= fun _ => (it.withHost host).tell e payload rs) :=
      .after (fun m => h.keeps.call m _ rfl) fun _ =>
        (h.listener r.listener payload).follows (h.keeps.listener _ _) fun _ =>
          h.alike_tell e payload rs
    rw [tell, tell]
    dsimp only
    split
    · exact .after (h.keeps.calls it .unlisten fun m => hear.spend m e r.key) fun _ => hrest
    · exact hrest

theorem alike_emit (h : it.Throughout P host) (e : Event) (payload : List Payload) :
    Alike P (it.emit e payload) ((it.withHost host).emit e payload) :=
  .calls it _ <| .calls it _ <| .looks fun _ => (h.alike_tell e payload _).before _

theorem alike_report (h : it.Throughout P host) (shown : String) (payload : Payload) :
    Alike P (it.report shown payload) ((it.withHost host).report shown payload) :=
  .calls it _ <| .after (h.keeps.writes _ _ rfl) fun _ => (h.alike_emit _ _).before _

theorem alike_complete (h : it.Throughout P host) (callback : Option String) (outcome : Outcome) :
    Alike P (it.complete callback outcome) ((it.withHost host).complete callback outcome) := by
  cases callback with
  | none => exact .refl P _
  | some id => exact .after (fun m => h.keeps.told m id outcome) fun _ => h.callback id outcome

theorem alike_schedule (h : it.Throughout P host) (origin : Origin) (callback : Option String) :
    Alike P (it.schedule origin callback) ((it.withHost host).schedule origin callback) := by
  have hfails : ∀ f : Fault, Alike P
      (Act.log .error .loading ("Failed to start G-code load: " ++ f.text) >>= fun _ =>
        it.complete callback (.error f))
      (Act.log .error .loading ("Failed to start G-code load: " ++ f.text) >>= fun _ =>
        (it.withHost host).complete callback (.error f)) :=
    fun f => .after (h.keeps.writes _ _ rfl) fun _ => h.alike_complete callback _
  refine .calls it _ <| .calls it _ <| .looks fun m => ?_
  rw [show (it.withHost host).obstacleToStart? = it.obstacleToStart? from rfl]
  cases it.obstacleToStart? with
  | none => exact .refl P _
  | some f =>
    dsimp only
    split
    · exact .after (h.keeps.writes _ _ rfl) fun _ => hfails f
    · exact hfails f

/-- An operation that answers to a command calls host code if it reports or starts a load. -/
theorem alike_answer (h : it.Throughout P host) (op : Operation) (args : Args) :
    Alike P (it.answer op args) ((it.withHost host).answer op args) := by
  unfold answer
  dsimp only
  split
  · exact .refl P _
  split
  case h_3 => exact h.alike_report _ _
  case h_4 => exact h.alike_schedule _ _
  case h_5 => exact h.alike_schedule _ _
  case h_6 => exact h.alike_schedule _ _
  all_goals exact .refl P _

theorem alike_callHandler (h : it.Throughout P host) (code : String) (args : Args) :
    Alike P (it.callHandler code args) ((it.withHost host).callHandler code args) := by
  refine .looks fun m => ?_
  split
  · exact .after (h.keeps.speaks _ _ _) fun _ => .after (fun m => h.keeps.call m _ rfl) fun _ =>
      (h.handler _ _).before _
  · exact .refl P _

theorem alike_callMethod (h : it.Throughout P host) (code : String) (args : Args) :
    Alike P (it.callMethod code args) ((it.withHost host).callMethod code args) := by
  rw [callMethod, callMethod, show (it.withHost host).dialect = it.dialect from rfl]
  split
  · exact .after (h.keeps.speaks _ _ _) fun _ => .after (fun m => h.keeps.call m _ rfl) fun _ =>
      (h.method _ _).before _
  · exact .after (h.keeps.speaks _ _ _) fun _ => (h.alike_answer _ _).before _
  all_goals exact .refl P _

theorem alike_dispatch (h : it.Throughout P host) (c : Command) :
    Alike P (it.dispatch c) ((it.withHost host).dispatch c) := by
  rw [dispatch, dispatch]
  split
  · exact .refl P _
  · exact (h.alike_callHandler _ _).follows (h.keeps.moves_callHandler _ _) fun called =>
      (h.alike_callMethod _ _).before _

/-! ### Lines -/

theorem alike_interpretGroups (h : it.Throughout P host) : ∀ gs : List Group,
    Alike P (it.interpretGroups gs) ((it.withHost host).interpretGroups gs)
  | [] => .refl P _
  | g :: gs => .after (h.keeps.moves_resolveGroup g) fun c =>
      (h.alike_dispatch c).follows (h.keeps.moves_dispatch c) fun _ =>
        (h.alike_interpretGroups gs).before _

theorem alike_interpret (h : it.Throughout P host) (ws : List Word) :
    Alike P (it.interpret ws) ((it.withHost host).interpret ws) :=
  .calls it _ (h.alike_interpretGroups _)

theorem alike_deliver (h : it.Throughout P host) : ∀ ls : List Line,
    Alike P (it.deliver ls) ((it.withHost host).deliver ls)
  | [] => .refl P _
  | l :: ls => by
    have hmoves : (it.call .deliver (it.emit .data [.line l] >>= fun _ =>
        it.interpret l.words >>= fun _ => pure ())).Moves (Machine.Keeping P) :=
      h.keeps.calls it _ <| h.keeps.follows (h.keeps.moves_emit _ _) fun _ =>
        h.keeps.follows (h.keeps.moves_interpret l.words) fun _ => h.keeps.nothing _
    have hline : Alike P (it.call .deliver (it.emit .data [.line l] >>= fun _ =>
          it.interpret l.words >>= fun _ => pure ()))
        (it.call .deliver ((it.withHost host).emit .data [.line l] >>= fun _ =>
          (it.withHost host).interpret l.words >>= fun _ => pure ())) :=
      .calls it _ <| (h.alike_emit _ _).follows (h.keeps.moves_emit _ _) fun _ =>
        (h.alike_interpret l.words).before _
    exact hline.follows hmoves fun _ => h.alike_deliver ls

theorem alike_announceProgress (h : it.Throughout P host) (source : Nat) :
    Alike P (it.announceProgress source) ((it.withHost host).announceProgress source) :=
  .after (h.keeps.moves_sourceAt source) fun _ => (h.alike_emit _ _).before _

/-! ### Turns -/

theorem alike_receive (h : it.Throughout P host) (load : Load) (data : Literal) :
    Alike P (it.receive load data) ((it.withHost host).receive load data) := by
  have hdeliver : ∀ ls, (it.deliver ls).Moves (Machine.Keeping P) := h.keeps.moves_deliver
  have hfinish : Alike P (it.finish load) ((it.withHost host).finish load) :=
    .after (h.keeps.moves_linesOf _) fun ls => (h.alike_deliver ls).follows (hdeliver ls) fun _ =>
      .after (h.keeps.moves_linesOf _) fun ls => (h.alike_deliver ls).before _
  have hingest : ∀ p, Alike P (it.ingest load p) ((it.withHost host).ingest load p) := fun p =>
    .after (h.keeps.moves_linesOf _) fun ls => (h.alike_deliver ls).follows (hdeliver ls) fun _ =>
      (h.alike_announceProgress _).before _
  refine .after (h.keeps.moves_accept _ _) fun p => ?_
  split
  · exact hfinish.before _
  · exact (hingest p).before _

/-- The induction is on the reads that one turn is allowed. -/
theorem alike_proceed (h : it.Throughout P host) : ∀ (limit : Nat) (load : Load),
    Alike P (it.proceed limit load) ((it.withHost host).proceed limit load) := by
  intro limit
  induction limit with
  | zero =>
    intro load
    rw [proceed.eq_def, proceed.eq_def]
    exact .refl P _
  | succ limit ih =>
    intro load
    rw [proceed.eq_def, proceed.eq_def]
    refine .after (h.keeps.moves_sourceAt _) fun src => ?_
    refine .after (h.keeps.moves_streamAt _) fun s => ?_
    rcases s.waits with _ | _ | left
    · exact .refl P _
    · refine .after (h.keeps.moves_take _ _) fun data =>
        (h.alike_receive load data).follows (h.keeps.moves_receive load data) ?_
      rintro (load' | ls)
      · exact ih load'
      · exact .refl P _
    · exact .refl P _

theorem alike_advanceRest (h : it.Throughout P host) (r : Load ⊕ List Line) :
    Alike P (it.advanceRest r) ((it.withHost host).advanceRest r) := by
  cases r with
  | inl load => exact .after (h.keeps.moves_readsLeft _) fun n => h.alike_proceed n load
  | inr ls => exact .refl P _

theorem alike_begin (h : it.Throughout P host) (handle : Handle) (total : Literal) :
    Alike P (it.begin handle total) ((it.withHost host).begin handle total) := by
  rw [begin_eq, begin_eq]
  exact .after (h.keeps.moves_prepare it handle total) fun load =>
    h.alike_advanceRest (.inl load)

theorem alike_resume (h : it.Throughout P host) (load : Load) :
    Alike P (it.resume load) ((it.withHost host).resume load) := by
  have hwith : ∀ data,
      Alike P (it.advanceWith load data) ((it.withHost host).advanceWith load data) := by
    intro data
    rw [advanceWith_eq, advanceWith_eq]
    exact (h.alike_receive load data).follows (h.keeps.moves_receive load data) h.alike_advanceRest
  rw [resume, resume]
  split
  · exact hwith _
  · exact .after (h.keeps.moves_take _ _) hwith
  · exact .refl P _

theorem alike_announced (h : it.Throughout P host) {turn turn' : Act Turn}
    (hmoves : turn.Moves (Machine.Keeping P)) (hturn : Alike P turn turn') :
    Alike P (it.announced turn) ((it.withHost host).announced turn') := by
  refine hturn.attempts.follows (attempts hmoves) ?_
  rintro (f | load | ls)
  · dsimp only
    split
    · exact (h.alike_report _ _).before _
    · exact .refl P _
  · exact .refl P _
  · exact .after (looks fun _ => h.keeps.writes _ _ rfl) fun _ => (h.alike_emit _ _).before _

/-! ### Tasks -/

theorem alike_runTurn (h : it.Throughout P host) (task : Task) (handle : Handle)
    {turn turn' : Act Turn} (hmoves : turn.Moves (Machine.Keeping P)) (hturn : Alike P turn turn') :
    Alike P (it.runTurn task handle turn) ((it.withHost host).runTurn task handle turn') := by
  refine (h.alike_announced hmoves hturn).attempts.follows
    (attempts (h.keeps.moves_announced hmoves)) ?_
  rintro (f | load | ls)
  · dsimp only
    split
    · exact (h.alike_complete _ _).attempts.before _
    · exact .refl P _
  · exact .refl P _
  · exact .after (h.keeps.moves_release _ _) fun _ => (h.alike_complete _ _).attempts.before _

theorem alike_startTask (h : it.Throughout P host) (task : Task) :
    Alike P (it.startTask task) ((it.withHost host).startTask task) := by
  refine .after (attempts (h.keeps.moves_openOrigin it _)) ?_
  rintro (f | handle)
  · dsimp only
    split
    · have htold : Alike P
          (it.announceFault f >>= fun _ => it.complete task.callback (.error f))
          ((it.withHost host).announceFault f >>= fun _ =>
            (it.withHost host).complete task.callback (.error f)) :=
        (h.alike_report _ _).follows (h.keeps.moves_announceFault f) fun _ => h.alike_complete _ _
      exact htold.attempts.before _
    · exact .refl P _
  · exact h.alike_runTurn task handle
      (h.keeps.moves_begin h.keeps.moves_receive handle .null) (h.alike_begin handle .null)

theorem alike_advance (h : it.Throughout P host) (task : Task) :
    Alike P (it.advance task) ((it.withHost host).advance task) := by
  rw [advance, advance]
  split
  · exact .refl P _
  · split
    · exact .refl P _
    · exact h.alike_startTask task
  · split
    · exact .refl P _
    · exact h.alike_runTurn task _ (h.keeps.moves_resume h.keeps.moves_receive _)
        (h.alike_resume _)

theorem alike_runTask (h : it.Throughout P host) (i : Nat) :
    Alike P (it.runTask i) ((it.withHost host).runTask i) := by
  refine .looks fun m => ?_
  split
  · exact .refl P _
  · exact (h.alike_advance _).before _

theorem alike_move (h : it.Throughout P host) (move : Move) :
    Alike P (move.act it) (move.act (it.withHost host)) := by
  cases move with
  | turn i => exact h.alike_runTask i
  | aside a => exact .refl P a

end Interpreter.Throughout

/-- If something that holds is undone neither by a turn, nor at the end of a turn, nor by what else
is done, then host code that does the same while it holds leads to the same moments of a schedule,
whatever it would do otherwise. -/
theorem Interpreter.runs_withHost {it : Interpreter} {P : Machine → Prop} {host : Host}
    (h : it.Throughout P host) (henter : ∀ m i stage, Machine.Keeping P m (m.enterStage i stage))
    {schedule : Nat → Move} (hschedule : ∀ n, (schedule n).Gentle (Machine.Keeping P))
    {m : Machine} (hm : P m) (n : Nat) :
    (it.withHost host).runs schedule m n = it.runs schedule m n := by
  induction n with
  | zero => rfl
  | succ n ih =>
    have hnow : P (it.runs schedule m n) := h.keeps.runs_respects henter hschedule m n hm
    rw [runs, runs, ih, after, after, h.alike_move (schedule n) _ hnow]

end Gcode
