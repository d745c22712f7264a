import Gcode.Proofs.Notices

/-!
The trace of a load that succeeds. A load gives notices and carries out the commands of each line
right after the notice of the line; these are its deeds, and they are given by its notices and the
modal command before it. What is entered in the journal follows from the deeds: one entry for every
listener that a notice reaches, and one for the handler and one for the method of a command. Main
statement: if host code returns and keeps its hands off the interpreter, a load of a document
without faults enters just that (`readStream_trace`).
-/

namespace Gcode

open Act
open Gcode.Text

/-! ### Deeds -/

/-- What a load does for others: it gives notice of an event, or carries out a command. -/
inductive Deed where
  | notice (e : Event) (payload : List Payload)
  | command (c : Command)

/-- The modal command after some commands. -/
def Command.modalAfter (modal : String) : List Command → String
  | [] => modal
  | c :: cs => modalAfter c.code cs

namespace Notice

/-- The event that a notice is of. -/
def event : Notice → Event
  | .line _ => .data
  | .progress _ _ => .progress
  | .ended _ => .ended

/-- What a notice carries. -/
def payload : Notice → List Payload
  | .line l => [.line l]
  | .progress consumed total => [.progress consumed total]
  | .ended ls => [.results ls]

/-- The commands that come with a notice, given the modal command before it. -/
def commands (modal : String) : Notice → List Command
  | .line l => Command.ofWords modal l.words
  | _ => []

/-- The deeds that a notice stands for: the notice itself and the commands that come with it. -/
def deeds (modal : String) (n : Notice) : List Deed :=
  .notice n.event n.payload :: (n.commands modal).map .command

/-- The modal command after a notice and what it stands for. -/
def modalAfter (modal : String) (n : Notice) : String := Command.modalAfter modal (n.commands modal)

end Notice

/-- The deeds that some notices stand for. -/
def deedsOf (modal : String) : List Notice → List Deed
  | [] => []
  | n :: ns => n.deeds modal ++ deedsOf (n.modalAfter modal) ns

/-- The modal command after some notices. -/
def modalThrough (modal : String) : List Notice → String
  | [] => modal
  | n :: ns => modalThrough (n.modalAfter modal) ns

theorem deedsOf_append (modal : String) (ns ns' : List Notice) :
    deedsOf modal (ns ++ ns') = deedsOf modal ns ++ deedsOf (modalThrough modal ns) ns' := by
  induction ns generalizing modal with
  | nil => rfl
  | cons n ns ih => rw [List.cons_append, deedsOf, ih, deedsOf, modalThrough, List.append_assoc]

/-! ### What is entered for a deed -/

/-- The registrations after an event: those that were due only once are gone. -/
def Registry.spent (e : Event) (r : Registry) (told : List Registration) : Registry :=
  told.foldl (fun r g => if g.once then r.removeKey e g.key else r) r

/-- The call of the method of a code, if there is one. -/
def Dialect.methodEntries (d : Dialect) (code : String) (args : Args) : List Entry :=
  match d.attribute? code with
  | some (_, .method m) => [.method m args]
  | _ => []

/-- What handlers leave of their arguments, which may depend on the calls that were made before. -/
abbrev Manner := String → Args → List Entry → Args

/-- The call of the handler of a code, if there is one that can be called. -/
def handlerEntries (handlers : Table Handler) (code : String) (args : Args) : List Entry :=
  match handlers.get? code with
  | some (.callable id) => [.handler id args]
  | _ => []

/-- What the handler of a code leaves of the arguments. -/
def argsLeft (handlers : Table Handler) (leaves : Manner) (journal : List Entry) (code : String)
    (args : Args) : Args :=
  match handlers.get? code with
  | some (.callable id) => leaves id args (journal ++ [.handler id args])
  | _ => args

namespace Interpreter

/-- The calls that a command leads to, given those before it. -/
def callEntries (it : Interpreter) (handlers : Table Handler) (leaves : Manner)
    (journal : List Entry) (c : Command) : List Entry :=
  if c.code.isEmpty then []
  else
    handlerEntries handlers c.code c.args ++
      it.dialect.methodEntries c.code (argsLeft handlers leaves journal c.code c.args)

/-- Enters a deed, given the registrations and the journal before it. -/
def record (it : Interpreter) (handlers : Table Handler) (leaves : Manner) :
    Registry × List Entry → Deed → Registry × List Entry
  | (r, journal), .notice e payload =>
    (r.spent e (r.of e), journal ++ (r.of e).map fun g => .listener g.listener payload)
  | (r, journal), .command c => (r, journal ++ it.callEntries handlers leaves journal c)

/-- Enters deeds in order. -/
def recordAll (it : Interpreter) (handlers : Table Handler) (leaves : Manner)
    (start : Registry × List Entry) (ds : List Deed) : Registry × List Entry :=
  ds.foldl (it.record handlers leaves) start

/-- The machine after some deeds that lead to a modal command. -/
def afterDeeds (it : Interpreter) (leaves : Manner) (m : Machine) (modal : String) (ds : List Deed)
    (log : List Log.Record) : Machine :=
  { m with
    modal
    registry := (it.recordAll m.handlers leaves (m.registry, m.journal) ds).1
    journal := (it.recordAll m.handlers leaves (m.registry, m.journal) ds).2
    log }

theorem afterDeeds_append (it : Interpreter) (leaves : Manner) (m : Machine) (modal modal' : String)
    (ds ds' : List Deed) (log log' : List Log.Record) :
    it.afterDeeds leaves (it.afterDeeds leaves m modal ds log) modal' ds' log' =
      it.afterDeeds leaves m modal' (ds ++ ds') log' := by
  simp only [afterDeeds, recordAll, List.foldl_append]

/-! ### Host code that keeps its hands off -/

/-- What a code leads to besides methods does nothing. -/
def Harmless (it : Interpreter) (name : String) : Attribute → Prop
  | .operation op => ∀ args, it.answer op args = pure ()
  | .inherent refusal => refusal = none
  | .slot => (Dialect.emptySlot it.dialect.owner it.dialect.attributes name).kind = .attribute
  | _ => True

/-- Host code returns and leaves the interpreter alone. -/
structure Unobtrusive (it : Interpreter) (leaves : Manner) : Prop where
  handler : ∀ id args m, it.host.handler id args m = .ok (leaves id args m.journal) m
  method : ∀ mt args, ∃ left : List Entry → Args, ∀ m,
    it.host.method mt args m = .ok (left m.journal) m
  listener : ∀ id payload m, it.host.listener id payload m = .ok () m
  harmless : ∀ code name a, it.dialect.attribute? code = some (name, a) → it.Harmless name a

/-- Host code returns and leaves the interpreter alone, but not its streams, which it may read, close
or replace. -/
structure Detached (it : Interpreter) (leaves : Manner) : Prop where
  handler : ∀ id args m, ∃ streams,
    it.host.handler id args m = .ok (leaves id args m.journal) { m with streams }
  method : ∀ mt args, ∃ left : List Entry → Args, ∀ m, ∃ streams,
    it.host.method mt args m = .ok (left m.journal) { m with streams }
  listener : ∀ id payload m, ∃ streams, it.host.listener id payload m = .ok () { m with streams }
  harmless : ∀ code name a, it.dialect.attribute? code = some (name, a) → it.Harmless name a

variable {it : Interpreter} {leaves : Manner}

theorem Unobtrusive.detached (h : it.Unobtrusive leaves) : it.Detached leaves where
  handler id args m := ⟨m.streams, h.handler id args m⟩
  method mt args := (h.method mt args).imp fun _ hleft m => ⟨m.streams, hleft m⟩
  listener id payload m := ⟨m.streams, h.listener id payload m⟩
  harmless := h.harmless

/-- A value that depends on the journal only is contained. -/
theorem contained_of_journal {α : Type} {a : Act α} {f : List Entry → α}
    (h : ∀ m, a m = .ok (f m.journal) m) : a.Contained := by
  constructor
  · intro m n hcore
    have hjournal : m.journal = n.journal := Machine.eq_of_core hcore _ fun _ => rfl
    rw [seen_ok (h m), seen_ok (h n), hjournal, hcore]
  · intro x m hm
    rwa [after, h m]

theorem Unobtrusive.contained (h : it.Unobtrusive leaves) : it.Contained where
  handler id args := contained_of_journal (h.handler id args)
  method mt args := (h.method mt args).elim fun _ hleft => contained_of_journal hleft
  listener id payload := contained_of_journal (f := fun _ => ()) (h.listener id payload)
  answer code name op hop args := by
    have hnothing : it.answer op args = pure () := h.harmless code name _ hop args
    rw [hnothing]
    exact contained_pure ()

/-! ### Commands -/

theorem callHandler_trace (h : it.Detached leaves) (code : String) (args : Args) (m : Machine) :
    ∃ n log streams, it.callHandler code args m =
      .ok (n, argsLeft m.handlers leaves m.journal code args)
        { m with journal := m.journal ++ handlerEntries m.handlers code args, log, streams } := by
  rw [callHandler, get_bind, argsLeft, handlerEntries]
  rcases m.handlers.get? code with _ | (id | _)
  · exact ⟨0, m.log, m.streams, by rw [List.append_nil]; rfl⟩
  · dsimp only
    rw [log_bind, enter_bind]
    obtain ⟨streams, hhost⟩ := h.handler id args { m with
      journal := m.journal ++ [.handler id args]
      log := m.log ++ [⟨.trace, .dispatch, "dispatch_handler code=" ++ code⟩] }
    rw [bind_ok hhost]
    exact ⟨1, _, streams, rfl⟩
  · exact ⟨0, m.log, m.streams, by rw [List.append_nil]; rfl⟩

theorem callMethod_trace (h : it.Detached leaves) (code : String) (args : Args) (m : Machine) :
    ∃ r log streams, it.callMethod code args m =
      .ok r { m with
        journal := m.journal ++ it.dialect.methodEntries code args, log, streams } := by
  rw [callMethod, Dialect.methodEntries]
  cases hattr : it.dialect.attribute? code with
  | none => exact ⟨_, m.log, m.streams, by rw [List.append_nil]; rfl⟩
  | some found =>
    obtain ⟨name, a⟩ := found
    have hharmless := h.harmless code name a hattr
    cases a with
    | method mt =>
      obtain ⟨left, hleft⟩ := h.method mt args
      obtain ⟨streams, hhost⟩ := hleft { m with
        journal := m.journal ++ [.method mt args]
        log := m.log ++
          [⟨.trace, .dispatch, "dispatch_method code=" ++ code ++ " method=" ++ name⟩] }
      dsimp only
      rw [logMethod, log_bind, enter_bind, bind_ok hhost]
      exact ⟨_, _, streams, rfl⟩
    | operation op =>
      dsimp only
      rw [logMethod, log_bind, hharmless args, List.append_nil]
      exact ⟨_, _, m.streams, rfl⟩
    | inherent refusal =>
      cases hharmless
      rw [List.append_nil]
      exact ⟨_, _, m.streams, rfl⟩
    | slot =>
      have hkind : (Dialect.emptySlot it.dialect.owner it.dialect.attributes name).kind =
        .attribute := hharmless
      dsimp only
      rw [if_neg (not_not_intro hkind), List.append_nil]
      exact ⟨_, m.log, m.streams, rfl⟩
    | value type => exact ⟨_, m.log, m.streams, by rw [List.append_nil]; rfl⟩
    | part => exact ⟨_, m.log, m.streams, by rw [List.append_nil]; rfl⟩

theorem dispatch_trace (h : it.Detached leaves) (c : Command) (m : Machine) :
    ∃ r log streams, it.dispatch c m =
      .ok r { it.afterDeeds leaves m m.modal [.command c] log with streams } := by
  show ∃ r log streams, it.dispatch c m = .ok r { m with
    journal := m.journal ++ it.callEntries m.handlers leaves m.journal c, log, streams }
  rw [dispatch, callEntries]
  split
  · rw [List.append_nil]
    exact ⟨_, _, m.streams, rfl⟩
  · obtain ⟨n, log, streams, hhandler⟩ := callHandler_trace h c.code c.args m
    rw [bind_ok hhandler]
    obtain ⟨r, log', streams', hmethod⟩ := callMethod_trace h c.code
      (argsLeft m.handlers leaves m.journal c.code c.args)
      { m with journal := m.journal ++ handlerEntries m.handlers c.code c.args, log, streams }
    dsimp only
    rw [bind_ok hmethod, ← List.append_assoc]
    dsimp only
    split
    · exact ⟨_, _, streams', rfl⟩
    · exact ⟨_, _, streams', rfl⟩

theorem resolveGroup_trace (it : Interpreter) (leaves : Manner) (g : Group) (m : Machine) :
    ∃ log, resolveGroup g m =
      .ok (g.resolve m.modal) (it.afterDeeds leaves m (g.resolve m.modal).code [] log) := by
  rw [resolveGroup, get_bind, setModal, bind_assoc, get_bind]
  split
  · exact ⟨_, rfl⟩
  · exact ⟨_, rfl⟩

/-- The groups of a line are carried out in order, each against the modal command of the one before
it. -/
theorem interpretGroups_trace (h : it.Detached leaves) : ∀ (gs : List Group) (m : Machine),
    ∃ cs log streams, it.interpretGroups gs m = .ok cs
      { it.afterDeeds leaves m (Command.modalAfter m.modal (Command.ofGroups m.modal gs))
        ((Command.ofGroups m.modal gs).map .command) log with streams }
  | [], m => ⟨[], m.log, m.streams, rfl⟩
  | g :: gs, m => by
    obtain ⟨log₁, hresolve⟩ := resolveGroup_trace it leaves g m
    obtain ⟨r, log₂, streams, hdispatch⟩ : ∃ r log streams, it.dispatch (g.resolve m.modal)
        (it.afterDeeds leaves m (g.resolve m.modal).code [] log₁) = .ok r
          { it.afterDeeds leaves m (g.resolve m.modal).code
              [.command (g.resolve m.modal)] log with streams } :=
      dispatch_trace h _ _
    obtain ⟨cs, log₃, streams', hrest⟩ : ∃ cs log streams', it.interpretGroups gs
        { it.afterDeeds leaves m (g.resolve m.modal).code
            [.command (g.resolve m.modal)] log₂ with streams } =
          .ok cs { it.afterDeeds leaves m
            (Command.modalAfter m.modal (Command.ofGroups m.modal (g :: gs)))
            ((Command.ofGroups m.modal (g :: gs)).map .command) log with streams := streams' } :=
      interpretGroups_trace h gs _
    rw [interpretGroups, bind_ok hresolve, bind_ok hdispatch]
    dsimp only
    rw [bind_ok hrest]
    exact ⟨_, log₃, streams', rfl⟩

/-! ### Notices -/

theorem tell_trace (h : it.Detached leaves) (hintact : it.Intact) (e : Event)
    (payload : List Payload) : ∀ (rs : List Registration) (m : Machine),
    ∃ streams, it.tell e payload rs m = .ok ()
      { m with
        registry := m.registry.spent e rs
        journal := m.journal ++ rs.map fun g => .listener g.listener payload
        streams }
  | [], m => ⟨m.streams, by rw [List.map_nil, List.append_nil]; rfl⟩
  | r :: rs, m => by
    have hrest : ∀ registry, ∃ streams, (do
        Act.enter (.listener r.listener payload)
        it.host.listener r.listener payload
        it.tell e payload rs : Act Unit) { m with registry } = .ok ()
          { m with
            registry := registry.spent e rs
            journal := m.journal ++ (r :: rs).map fun g => .listener g.listener payload
            streams } := by
      intro registry
      obtain ⟨streams, hhost⟩ := h.listener r.listener payload
        { m with registry, journal := m.journal ++ [.listener r.listener payload] }
      rw [List.map_cons, List.append_cons, enter_bind, bind_ok hhost]
      exact tell_trace h hintact e payload rs _
    rw [tell]
    dsimp only
    split
    · rename_i honce
      obtain ⟨streams, htold⟩ := hrest (m.registry.removeKey e r.key)
      rw [hintact.call_eq]
      refine ⟨streams, htold.trans ?_⟩
      rw [Registry.spent, Registry.spent, List.foldl_cons, if_pos honce]
    · rename_i honce
      obtain ⟨streams, htold⟩ := hrest m.registry
      refine ⟨streams, htold.trans ?_⟩
      rw [Registry.spent, Registry.spent, List.foldl_cons, if_neg honce]

theorem emit_trace (h : it.Detached leaves) (hintact : it.Intact) (e : Event)
    (payload : List Payload) (m : Machine) :
    ∃ heard streams, it.emit e payload m =
      .ok heard { it.afterDeeds leaves m m.modal [.notice e payload] m.log with streams } := by
  obtain ⟨streams, htold⟩ := tell_trace h hintact e payload (m.registry.of e) m
  rw [emit, hintact.call_eq, hintact.call_eq, notify, get_bind, bind_ok htold]
  exact ⟨_, streams, rfl⟩

theorem give_trace (h : it.Detached leaves) (hintact : it.Intact) (n : Notice) (m : Machine) :
    ∃ log streams, it.give n m = .ok ()
      { it.afterDeeds leaves m (n.modalAfter m.modal) (n.deeds m.modal) log with streams } := by
  cases n with
  | line l =>
    obtain ⟨heard, streams, hemit⟩ := emit_trace h hintact .data [.line l] m
    obtain ⟨cs, log, streams', hgroups⟩ : ∃ cs log streams',
        it.interpretGroups (Group.partition l.words)
          { it.afterDeeds leaves m m.modal [.notice .data [.line l]] m.log with streams } =
            .ok cs { it.afterDeeds leaves m ((Notice.line l).modalAfter m.modal)
              ((Notice.line l).deeds m.modal) log with streams := streams' } :=
      interpretGroups_trace h _ _
    rw [give, deliver, deliver, hintact.call_eq, interpret, hintact.call_eq]
    simp only [bind_assoc, pure_bind]
    rw [bind_ok hemit, bind_ok hgroups]
    exact ⟨log, streams', rfl⟩
  | progress consumed total =>
    obtain ⟨heard, streams, hemit⟩ := emit_trace h hintact .progress [.progress consumed total] m
    rw [give, bind_ok hemit]
    exact ⟨m.log, streams, rfl⟩
  | ended ls =>
    obtain ⟨heard, streams, hemit⟩ := emit_trace h hintact .ended [.results ls] m
    rw [give, bind_ok hemit]
    exact ⟨m.log, streams, rfl⟩

theorem giveAll_trace (h : it.Detached leaves) (hintact : it.Intact) :
    ∀ (ns : List Notice) (m : Machine), ∃ log streams, it.giveAll ns m = .ok ()
      { it.afterDeeds leaves m (modalThrough m.modal ns) (deedsOf m.modal ns) log with streams }
  | [], m => ⟨m.log, m.streams, rfl⟩
  | n :: ns, m => by
    obtain ⟨log, streams, hgive⟩ := give_trace h hintact n m
    obtain ⟨log', streams', hrest⟩ := giveAll_trace h hintact ns
      { it.afterDeeds leaves m (n.modalAfter m.modal) (n.deeds m.modal) log with streams }
    refine ⟨log', streams', ?_⟩
    rw [giveAll, bind_ok hgive, hrest]
    simp only [afterDeeds, recordAll, deedsOf, modalThrough, List.foldl_append]

theorem succeeded_trace (h : it.Detached leaves) (hintact : it.Intact) (ls : List Line)
    (m : Machine) :
    ∃ log streams, it.succeeded ls m =
      .ok ls { it.afterDeeds leaves m m.modal [.notice .ended [.results ls]] log with streams } := by
  obtain ⟨log, hlog⟩ : ∃ log, logLoaded ls.length m = .ok () { m with log } := ⟨_, rfl⟩
  obtain ⟨heard, streams, hemit⟩ := emit_trace h hintact .ended [.results ls] { m with log }
  rw [succeeded, bind_ok hlog, bind_ok hemit]
  exact ⟨log, streams, rfl⟩

/-- Notices are given, and then notice of the end. -/
theorem concluded_trace (h : it.Unobtrusive leaves) (hintact : it.Intact) (ns : List Notice)
    (ls : List Line) (m : Machine) :
    ∃ log, it.concluded (it.giveAll ns >>= fun _ => pure ls) m =
      .ok ls (it.afterDeeds leaves m (modalThrough m.modal ns)
        (deedsOf m.modal (ns ++ [.ended ls])) log) := by
  obtain ⟨log, streams, hgive⟩ := giveAll_trace h.detached hintact ns m
  obtain ⟨log', streams', hend⟩ := succeeded_trace h.detached hintact ls
    { it.afterDeeds leaves m (modalThrough m.modal ns) (deedsOf m.modal ns) log with streams }
  have hends := bind_ok hgive fun _ => (pure ls : Act (List Line))
  have hin : streams' = m.streams := by
    have hgiven := (contained_giveAll h.contained ns).keeps.of_ok hgive
    have hended := (contained_succeeded h.contained ls).keeps.of_ok hend
    exact congrArg Prod.fst (hended.trans hgiven)
  subst hin
  refine ⟨log', ?_⟩
  rw [concluded_ok hends, hend]
  simp only [afterDeeds, recordAll, deedsOf_append, List.foldl_append]
  rfl

end Interpreter

/-! ### All notices of a load -/

/-- The notices of a load, the last of them that it ended with the given lines. -/
def noticesOf (strict : Bool) (e : Encoding) (consumed : Nat) (total : Literal) (ps : List Piece)
    (ls : List Line) : List Notice :=
  noticesFrom strict total [] { encoding := e } consumed ps ++ [.ended ls]

/-- The deeds of a load, given the machine before it and the source that it reads. -/
def loadDeeds (m : Machine) (e : Encoding) (src : Source) (ps : List Piece) (ls : List Line) :
    List Deed :=
  deedsOf m.modal (noticesOf m.strict e src.consumed src.total ps ls)

/-- What the notices of an event carry, if a deed is one. -/
def Deed.payload? (e : Event) : Deed → Option (List Payload)
  | .notice e' payload => if e' = e then some payload else none
  | .command _ => none

/-- What the notices of an event carry, if a notice is one. -/
def Notice.payload? (e : Event) (n : Notice) : Option (List Payload) :=
  if n.event = e then some n.payload else none

/-- The deeds give the same notices as the notices they come from. -/
theorem payloads_deedsOf (e : Event) (modal : String) (ns : List Notice) :
    (deedsOf modal ns).filterMap (Deed.payload? e) = ns.filterMap (Notice.payload? e) := by
  have hcommands : ∀ cs : List Command, (cs.map Deed.command).filterMap (Deed.payload? e) = [] := by
    intro cs
    rw [List.filterMap_map]
    exact List.filterMap_eq_nil_iff.2 fun _ _ => rfl
  induction ns generalizing modal with
  | nil => rfl
  | cons n ns ih =>
    rw [deedsOf, List.filterMap_append, ih, Notice.deeds, List.filterMap_cons, List.filterMap_cons,
      hcommands, Deed.payload?, Notice.payload?]
    split <;> rfl

theorem payloads_lines {e : Event} (he : Event.data ≠ e) (ls : List Line) :
    (ls.map Notice.line).filterMap (Notice.payload? e) = [] := by
  rw [List.filterMap_map]
  exact List.filterMap_eq_nil_iff.2 fun _ _ => if_neg he

/-- The data of a load are its lines. -/
theorem payloads_data (ns : List Notice) :
    ns.filterMap (Notice.payload? .data) = (ns.filterMap Notice.line?).map fun l => [.line l] := by
  induction ns with
  | nil => rfl
  | cons n ns ih =>
    cases n with
    | line l =>
      rw [List.filterMap_cons, List.filterMap_cons, ih]
      rfl
    | progress consumed total => rw [List.filterMap_cons_none rfl, List.filterMap_cons_none rfl, ih]
    | ended ls => rw [List.filterMap_cons_none rfl, List.filterMap_cons_none rfl, ih]

/-- The length of some pieces together. -/
def lengthOf : List Piece → Nat
  | [] => 0
  | p :: ps => p.length + lengthOf ps

/-- The progress after a piece is the length of all pieces so far and what was there before. -/
theorem payloads_progress (strict : Bool) (total : Literal) : ∀ (ps : List Piece)
    (before : List Char) (d : Decoder) (consumed : Nat),
    (noticesFrom strict total before d consumed ps).filterMap (Notice.payload? .progress) =
      (List.range ps.length).map fun i =>
        [.progress (consumed + lengthOf (ps.take (i + 1))) total]
  | [], before, d, consumed => payloads_lines (by decide) _
  | p :: ps, before, d, consumed => by
    rw [noticesFrom, List.filterMap_append, payloads_lines (by decide), List.filterMap_cons,
      List.length_cons, List.range_succ_eq_map, List.map_cons, List.map_map, payloads_progress]
    simp [Notice.payload?, Notice.event, Notice.payload, Function.comp_def, lengthOf, Nat.add_assoc]

/-- Before its end a load gives no notice of it. -/
theorem payloads_ended (strict : Bool) (total : Literal) : ∀ (ps : List Piece)
    (before : List Char) (d : Decoder) (consumed : Nat),
    (noticesFrom strict total before d consumed ps).filterMap (Notice.payload? .ended) = []
  | [], before, d, consumed => payloads_lines (by decide) _
  | p :: ps, before, d, consumed => by
    rw [noticesFrom, List.filterMap_append, payloads_lines (by decide), List.filterMap_cons,
      payloads_ended]
    rfl

theorem payloads_failed (ns : List Notice) : ns.filterMap (Notice.payload? .failed) = [] :=
  List.filterMap_eq_nil_iff.2 fun n _ => by cases n <;> rfl

/-! ### The trace -/

theorem Act.eq_ok_of_seen {α : Type} {a : Act α} {m n : Machine} {x : α}
    (h : a.seen m = (.ok x, n.core)) : ∃ m', a m = .ok x m' ∧ m'.core = n.core := by
  cases ha : a m with
  | ok y m' =>
    rw [seen_ok ha, Prod.mk.injEq, Except.ok.injEq] at h
    exact ⟨m', by rw [h.1], h.2⟩
  | error f m' => rw [seen_error ha] at h; simp at h

/-- A load of a document without faults, with host code that leaves the interpreter alone, returns
its lines and enters its deeds and nothing else. The lines are also what the notices of data carry,
in order, and what the only notice of the end carries. The progress after each piece is the length
of all pieces so far on top of what the source had passed on before, and no fault is announced. -/
theorem readStream_trace (it : Interpreter) (leaves : Manner) (hit : it.Unobtrusive leaves)
    (hintact : it.Intact) (e : Encoding) (he : encodingNamed it.encoding = .ok e) (m : Machine)
    (hq : m.queue = []) (h : Handle) (src : Source) (s : Stream) (hh : h.StandsFor m src s)
    (ps : List Piece) (hyields : s.Yields it.chunkSize ps) (ls : List Line)
    (hls : (LineReader.program { strict := m.strict } (documentOf { encoding := e } ps)).1.lines =
      .ok ls) (total : Literal) :
    (∃ enough, ∀ fuel, enough ≤ fuel → ∃ m', it.readStream fuel h total m = .ok ls m' ∧
      m'.journal = (it.recordAll m.handlers leaves (m.registry, m.journal)
        (loadDeeds m e (src.withTotal total) ps ls)).2) ∧
    (loadDeeds m e (src.withTotal total) ps ls).filterMap (Deed.payload? .data) =
      (ls.map fun l => [.line l]) ∧
    (loadDeeds m e (src.withTotal total) ps ls).filterMap (Deed.payload? .progress) =
      ((List.range ps.length).map fun i =>
        [.progress (src.consumed + lengthOf (ps.take (i + 1))) (src.withTotal total).total]) ∧
    (loadDeeds m e (src.withTotal total) ps ls).filterMap (Deed.payload? .ended) = [[.results ls]] ∧
    (loadDeeds m e (src.withTotal total) ps ls).filterMap (Deed.payload? .failed) = [] := by
  rw [loadDeeds, Source.withTotal_consumed]
  refine ⟨?_, ?_, ?_, ?_, ?_⟩
  · refine ⟨(s.left + 1) * s.turnsPerRead, fun fuel hfuel => ?_⟩
    have hseen := Interpreter.seen_readStream hit.contained hintact he hq hh hyields hls total hfuel
    obtain ⟨log, hend⟩ := Interpreter.concluded_trace hit hintact
      (noticesFrom m.strict (src.withTotal total).total [] { encoding := e } src.consumed ps) ls m
    rw [seen_ok (leaving_ok hend)] at hseen
    obtain ⟨m', hm', hcore⟩ := eq_ok_of_seen hseen
    exact ⟨m', hm', Machine.eq_of_core hcore _ fun _ => rfl⟩
  · rw [← readingOfRest_nil] at hls
    rw [payloads_deedsOf, payloads_data, noticesOf, List.filterMap_append, lines_noticesFrom hls]
    exact congrArg _ (List.append_nil ls)
  · rw [payloads_deedsOf, noticesOf, List.filterMap_append, payloads_progress]
    exact List.append_nil _
  · rw [payloads_deedsOf, noticesOf, List.filterMap_append, payloads_ended]
    rfl
  · rw [payloads_deedsOf, payloads_failed]

/-! ### An interpreter whose trace is seen -/

/-- Handlers drop `X`. -/
def tidy : Interpreter where
  dialect := { table := ⟨[("G1", "G1")]⟩, attributes := ⟨[("G1", .method ⟨"Tidy", "G1", none⟩)]⟩ }
  host := { Host.silent with handler := fun _ args => pure (args.erase "X") }

/-- A source that has passed on five characters of twenty. The listener for the progress is due only
once. -/
def tidyStart : Machine where
  handlers := ⟨[("G1", .callable "drop")]⟩
  registry :=
    { data := [⟨0, "data", false⟩], progress := [⟨1, "progress", true⟩],
      ended := [⟨2, "end", false⟩] }
  streams :=
    [{ supply := .chunks [.data (.text "G1 X1\nY"), .data (.text "2")] (some 0),
       typeName := "AsyncReader" }]
  sources := [{ stream := 0, total := .int 20, name := .text "source", consumed := 5 }]

/-- The lines of the document that the source reads. -/
def tidyLines : List Line :=
  [⟨"G1 X1", [⟨"G", .int 1⟩, ⟨"X", .int 1⟩], none, none, some 1, none⟩,
   ⟨"Y2", [⟨"Y", .int 2⟩], none, none, some 2, none⟩]

theorem unobtrusive_tidy : tidy.Unobtrusive fun _ args _ => args.erase "X" where
  handler _ _ _ := rfl
  method _ args := ⟨fun _ => args, fun _ => rfl⟩
  listener _ _ _ := rfl
  harmless code name a h := by
    by_cases hc : "G1" = code
    · subst hc
      cases h
      trivial
    · have hnone : tidy.dialect.table.get? code = none := by simp [tidy, Table.get?, hc]
      rw [Dialect.attribute?, hnone] at h
      cases h

theorem readStream_trace_tidy :
    ∃ enough, ∀ fuel, enough ≤ fuel → ∃ m',
      tidy.readStream fuel (.source 0) .null tidyStart = .ok tidyLines m' ∧
      m'.journal =
        [.listener "data"
           [.line ⟨"G1 X1", [⟨"G", .int 1⟩, ⟨"X", .int 1⟩], none, none, some 1, none⟩],
         .handler "drop" ⟨[("X", .int 1)]⟩, .method ⟨"Tidy", "G1", none⟩ ⟨[]⟩,
         .listener "progress" [.progress 12 (.int 20)],
         .listener "data" [.line ⟨"Y2", [⟨"Y", .int 2⟩], none, none, some 2, none⟩],
         .handler "drop" ⟨[("Y", .int 2)]⟩, .method ⟨"Tidy", "G1", none⟩ ⟨[("Y", .int 2)]⟩,
         .listener "end" [.results tidyLines]] := by
  have hintact : tidy.Intact := by
    intro op
    cases op <;> rfl
  have he : encodingNamed tidy.encoding = .ok .utf8 :=
    encodingNamed_known (by decide +kernel) (by decide +kernel)
  have hyields : Stream.Yields tidy.chunkSize
      { supply := .chunks [.data (.text "G1 X1\nY"), .data (.text "2")] (some 0),
        typeName := "AsyncReader" } [.text "G1 X1\nY".toList, .text "2".toList] :=
    Stream.yields_reader _ (by decide) rfl rfl
  have hstands : (Handle.source 0).StandsFor tidyStart
      { stream := 0, total := .int 20, name := .text "source", consumed := 5 }
      { supply := .chunks [.data (.text "G1 X1\nY"), .data (.text "2")] (some 0),
        typeName := "AsyncReader" } :=
    .source ⟨rfl, rfl⟩ fun _ hj => by cases hj
  obtain ⟨⟨enough, hrun⟩, -⟩ := readStream_trace tidy _ unobtrusive_tidy hintact .utf8 he tidyStart
    rfl (.source 0) _ _ hstands _ hyields tidyLines rfl .null
  refine ⟨enough, fun fuel hfuel => ?_⟩
  obtain ⟨m', hm', hjournal⟩ := hrun fuel hfuel
  exact ⟨m', hm', hjournal⟩

end Gcode
