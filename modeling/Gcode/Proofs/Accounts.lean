import Gcode.Proofs.Conduct
import Gcode.Proofs.Steps

/-!
Accounts of tasks. What a task does for others in a turn are a few kinds of things: it announces
lines and carries them out, it announces the progress, the end or a fault, and it calls its
callback. An account of a turn lists these in order; in between nothing is done that others see.
Main statement: every turn of a task has an account in which the callback is called once at most,
and if host code returns, the account of the turn that ends a task closes with the announcement and
the call that belong to its result (`runTask_does`).
-/

namespace Gcode

open Act

/-- What a task does for others. -/
inductive Item where
  /-- It announces lines and carries them out, each before the next. -/
  | lines (ls : List Line)
  | progress (consumed : Nat) (total : Literal)
  | ended (ls : List Line)
  | failed (f : Fault)
  /-- It tells the callback what became of the load. -/
  | told (outcome : Outcome)

namespace Item

/-- Is it part of a load, and not of its end? -/
def isPart : Item → Bool
  | .lines _ | .progress _ _ => true
  | _ => false

/-- The lines with which the end is announced. -/
def ended? : Item → Option (List Line)
  | .ended ls => some ls
  | _ => none

/-- The fault that is announced. -/
def failed? : Item → Option Fault
  | .failed f => some f
  | _ => none

/-- What the callback is told. -/
def told? : Item → Option Outcome
  | .told outcome => some outcome
  | _ => none

end Item

/-- A call of host code, which is entered in the journal before it is made. -/
def Entry.made (it : Interpreter) (x : Entry) : Act Unit := Act.enter x >>= fun _ => x.call it

namespace Interpreter

/-- The calls of some listeners, in order. One that is due only once is taken out before. -/
def callEach (it : Interpreter) (e : Event) (payload : List Payload) : List Registration → Act Unit
  | [] => pure ()
  | r :: rs => do
    if r.once then
      it.require .unlisten
      modify fun m => { m with registry := m.registry.removeKey e r.key }
    (Entry.listener r.listener payload).made it
    it.callEach e payload rs

/-- The calls of all who are registered for an event now, unless something stands in front of the
operations on notices. -/
def callListeners (it : Interpreter) (e : Event) (payload : List Payload) : Act Unit := do
  it.require .emit
  it.require .checkEvent
  it.callEach e payload ((← get).registry.of e)

end Interpreter

/-- The calls that an item stands for, in a task with the given callback: listeners are called, and
so is the callback. -/
def Item.carry (it : Interpreter) (callback : Option String) : Item → Act Unit
  | .lines ls => it.deliver ls
  | .progress consumed total => it.callListeners .progress [.progress consumed total]
  | .ended ls => it.callListeners .ended [.results ls]
  | .failed f => do
    it.require .report
    Act.log .error .loading ("G-code load failed: " ++ f.text)
    it.callListeners .failed [.fault f]
  | .told outcome =>
    match callback with
    | none => pure ()
    | some id => (Entry.callback id outcome).made it

namespace Interpreter

/-! ### Items are what a load does -/

theorem tell_eq_callEach (it : Interpreter) (e : Event) (payload : List Payload) :
    ∀ rs : List Registration, it.tell e payload rs = it.callEach e payload rs
  | [] => rfl
  | r :: rs => by
    rw [tell, callEach]
    simp only [tell_eq_callEach it e payload rs, Entry.made, Entry.call, Interpreter.call, bind_assoc]

/-- To give notice of an event is to call those who are registered for it. -/
theorem emit_eq_callListeners (it : Interpreter) (e : Event) (payload : List Payload) :
    (it.emit e payload >>= fun _ => pure ()) = it.callListeners e payload := by
  simp only [emit, Interpreter.call, notify, callListeners, tell_eq_callEach, bind_assoc, pure_bind,
    bind_pure_unit]

theorem carry_progress (callback : Option String) (consumed : Nat) (total : Literal) :
    (Item.progress consumed total).carry it callback = it.give (.progress consumed total) :=
  (it.emit_eq_callListeners .progress _).symm

theorem carry_ended (callback : Option String) (ls : List Line) :
    (Item.ended ls).carry it callback = it.give (.ended ls) :=
  (it.emit_eq_callListeners .ended _).symm

theorem carry_failed (callback : Option String) (f : Fault) :
    (Item.failed f).carry it callback = it.announceFault f := by
  rw [announceFault, report, it.emit_eq_callListeners .failed]
  rfl

theorem carry_told (callback : Option String) (outcome : Outcome) :
    (Item.told outcome).carry it callback = it.complete callback outcome := by
  cases callback <;> rfl

end Interpreter

/-- The part of a machine that others see while a load reads: all but sources, streams, tasks and
the log. -/
def Machine.face (m : Machine) : Machine := { m.core with tasks := [], queue := [] }

theorem Machine.face_of_core {m m' : Machine} (h : m.core = m'.core) : m.face = m'.face := by
  rw [face, face, h]

/-- What is done to sources and streams is not seen by others. -/
theorem upkeep_face : Upkeep fun m m' => m'.face = m.face where
  toSteady := steady_part Machine.face
  log _ _ _ := rfl
  read _ _ _ _ _ := rfl
  close _ _ := rfl
  opens _ _ := rfl
  wraps _ _ := rfl
  total _ _ _ := rfl
  count _ is n := Machine.face_of_core (Machine.countRead_core is n _)

namespace Interpreter

/-- An account: items are carried out in order, whether they return or not, and nothing is seen to
happen in between. -/
inductive Does (it : Interpreter) (callback : Option String) :
    List Item → Machine → Machine → Prop
  | idle {m m' : Machine} : m'.face = m.face → Does it callback [] m m'
  | item {x : Item} {xs : List Item} {m m₁ m' : Machine} : m₁.face = m.face →
      Does it callback xs ((x.carry it callback).after m₁) m' → Does it callback (x :: xs) m m'

variable {it : Interpreter} {callback : Option String} {m m' m'' : Machine} {xs ys : List Item}

theorem Does.before (hface : m.face = m''.face) (h : it.Does callback xs m m') :
    it.Does callback xs m'' m' := by
  cases h with
  | idle h => exact .idle (h.trans hface)
  | item h hrest => exact .item (h.trans hface) hrest

theorem Does.append (h : it.Does callback xs m m') (h' : it.Does callback ys m' m'') :
    it.Does callback (xs ++ ys) m m'' := by
  induction h with
  | idle hface => exact h'.before hface
  | item hface _ ih => exact .item hface (ih h')

theorem Does.until (h : it.Does callback xs m m') (hface : m''.face = m'.face) :
    it.Does callback xs m m'' := by
  have := h.append (.idle hface)
  rwa [List.append_nil] at this

theorem Does.single (x : Item) (m : Machine) :
    it.Does callback [x] m ((x.carry it callback).after m) :=
  .item rfl (.idle rfl)

theorem Does.of_ok {x : Item} (h : x.carry it callback m = .ok () m') :
    it.Does callback [x] m m' := by
  have hsingle : it.Does callback [x] m ((x.carry it callback).after m) := .single x m
  rwa [after, h] at hsingle

theorem Does.of_error {x : Item} {f : Fault} (h : x.carry it callback m = .error f m') :
    it.Does callback [x] m m' := by
  have hsingle : it.Does callback [x] m ((x.carry it callback).after m) := .single x m
  rwa [after, h] at hsingle

/-! ### Parts -/

/-- Some parts of a load. -/
def Parts (xs : List Item) : Prop := ∀ x ∈ xs, x.isPart

theorem parts_nil : Parts [] := fun _ h => by cases h

theorem Parts.cons {x : Item} (hx : x.isPart) (h : Parts xs) : Parts (x :: xs) :=
  List.forall_mem_cons.2 ⟨hx, h⟩

theorem Parts.append (h : Parts xs) (h' : Parts ys) : Parts (xs ++ ys) :=
  fun x hx => (List.mem_append.1 hx).elim (h x) (h' x)

/-- Parts hold nothing that picks out the end of a load. -/
theorem Parts.filterMap_eq {γ : Type} {pick : Item → Option γ} (h : Parts xs)
    (hpick : ∀ x : Item, x.isPart → pick x = none) : xs.filterMap pick = [] :=
  List.filterMap_eq_nil_iff.2 fun x hx => hpick x (h x hx)

theorem Parts.ended (h : Parts xs) : xs.filterMap Item.ended? = [] :=
  h.filterMap_eq fun x hx => by cases x <;> first | rfl | cases hx

theorem Parts.failed (h : Parts xs) : xs.filterMap Item.failed? = [] :=
  h.filterMap_eq fun x hx => by cases x <;> first | rfl | cases hx

theorem Parts.told (h : Parts xs) : xs.filterMap Item.told? = [] :=
  h.filterMap_eq fun x hx => by cases x <;> first | rfl | cases hx

/-- What has an account of parts only. -/
def DoesParts (it : Interpreter) (callback : Option String) (m m' : Machine) : Prop :=
  ∃ xs, Parts xs ∧ it.Does callback xs m m'

theorem DoesParts.idle (h : m'.face = m.face) : it.DoesParts callback m m' :=
  ⟨[], parts_nil, .idle h⟩

theorem DoesParts.trans (h : it.DoesParts callback m m') (h' : it.DoesParts callback m' m'') :
    it.DoesParts callback m m'' := by
  obtain ⟨xs, hxs, hdoes⟩ := h
  obtain ⟨ys, hys, hdoes'⟩ := h'
  exact ⟨xs ++ ys, hxs.append hys, hdoes.append hdoes'⟩

theorem DoesParts.part {x : Item} (hx : x.isPart) (m : Machine) :
    it.DoesParts callback m ((x.carry it callback).after m) :=
  ⟨[x], parts_nil.cons hx, .single x m⟩

/-- Having an account of parts is a relation like any other, so that actions can be taken apart. -/
theorem steady_doesParts : Steady (it.DoesParts callback) where
  refl _ := .idle rfl
  trans := DoesParts.trans

theorem upkeep_doesParts : Upkeep (it.DoesParts callback) where
  toSteady := steady_doesParts
  log m records h := .idle (upkeep_face.log m records h)
  read m i s size h := .idle (upkeep_face.read m i s size h)
  close m i := .idle (upkeep_face.close m i)
  opens m s := .idle (upkeep_face.opens m s)
  wraps m src := .idle (upkeep_face.wraps m src)
  total m i total := .idle (upkeep_face.total m i total)
  count m is n := .idle (upkeep_face.count m is n)

theorem deliver_doesParts (ls : List Line) : (it.deliver ls).Moves (it.DoesParts callback) :=
  fun m => .part (x := .lines ls) rfl m

theorem announceProgress_doesParts (i : Nat) :
    (it.announceProgress i).Moves (it.DoesParts callback) := by
  intro m
  cases hsrc : m.sources[i]? with
  | none =>
    have hsource : sourceAt i m = .error .noSource m := by
      rw [sourceAt, get_bind, hsrc]
      rfl
    rw [after, announceProgress, bind_error hsource]
    exact .idle rfl
  | some src =>
    rw [after, announceProgress_eq hsrc, ← carry_progress callback]
    exact .part (x := .progress src.consumed src.total) rfl m

theorem receive_doesParts (load : Load) (data : Literal) :
    (it.receive load data).Moves (it.DoesParts callback) := by
  have h : Upkeep (it.DoesParts callback) := upkeep_doesParts
  refine h.follows (h.moves_accept _ _) fun p => ?_
  split
  · have hfinish : (it.finish load).Moves (it.DoesParts callback) :=
      h.follows (h.moves_linesOf _) fun ls => h.follows (deliver_doesParts ls) fun _ =>
        h.follows (h.moves_linesOf _) fun ls => h.follows (deliver_doesParts ls) fun _ =>
          h.nothing _
    exact h.follows hfinish fun _ => h.nothing _
  · have hingest : (it.ingest load p).Moves (it.DoesParts callback) :=
      h.follows (h.moves_linesOf _) fun ls => h.follows (deliver_doesParts ls) fun _ =>
        h.follows (announceProgress_doesParts _) fun _ => h.nothing _
    exact h.follows hingest fun _ => h.nothing _

theorem begin_doesParts (h : Handle) (total : Literal) :
    (it.begin h total).Moves (it.DoesParts callback) :=
  upkeep_doesParts.moves_begin receive_doesParts h total

theorem resume_doesParts (load : Load) : (it.resume load).Moves (it.DoesParts callback) :=
  upkeep_doesParts.moves_resume receive_doesParts load

/-! ### Ends -/

/-- Listeners return, and nothing stands in front of an operation. -/
structure Listening (it : Interpreter) : Prop where
  intact : it.Intact
  listener : ∀ id payload m, ∃ m', it.host.listener id payload m = .ok () m'

/-- Listeners and callbacks return, and nothing stands in front of an operation. -/
structure Attentive (it : Interpreter) : Prop extends it.Listening where
  callback : ∀ id outcome m, ∃ m', it.host.callback id outcome m = .ok () m'

theorem Listening.tell_returns (h : it.Listening) (e : Event) (payload : List Payload) :
    ∀ (rs : List Registration) (m : Machine), ∃ m', it.tell e payload rs m = .ok () m'
  | [], m => ⟨m, rfl⟩
  | r :: rs, m => by
    have hrest : ∀ m, ∃ m', (do
        Act.enter (.listener r.listener payload)
        it.host.listener r.listener payload
        it.tell e payload rs : Act Unit) m = .ok () m' := by
      intro m
      obtain ⟨m₁, hhost⟩ := h.listener r.listener payload
        { m with journal := m.journal ++ [.listener r.listener payload] }
      obtain ⟨m₂, hrest⟩ := h.tell_returns e payload rs m₁
      rw [enter_bind, bind_ok hhost]
      exact ⟨m₂, hrest⟩
    rw [tell]
    dsimp only
    split
    · rw [h.intact.call_eq]
      exact hrest { m with registry := m.registry.removeKey e r.key }
    · exact hrest m

theorem Listening.emit_returns (h : it.Listening) (e : Event) (payload : List Payload)
    (m : Machine) : ∃ heard m', it.emit e payload m = .ok heard m' := by
  obtain ⟨m', htold⟩ := h.tell_returns e payload (m.registry.of e) m
  rw [emit, h.intact.call_eq, h.intact.call_eq, notify, get_bind, bind_ok htold]
  exact ⟨_, m', rfl⟩

theorem Listening.announceFault_returns (h : it.Listening) (f : Fault) (m : Machine) :
    ∃ m', it.announceFault f m = .ok () m' := by
  obtain ⟨heard, m', hemit⟩ := h.emit_returns .failed [.fault f]
    { m with log := m.log ++ [⟨.error, .loading, "G-code load failed: " ++ f.text⟩] }
  rw [announceFault, report, h.intact.call_eq, log_bind, bind_ok hemit]
  exact ⟨m', rfl⟩

theorem Attentive.complete_returns (h : it.Attentive) (callback : Option String)
    (outcome : Outcome) (m : Machine) : ∃ m', it.complete callback outcome m = .ok () m' := by
  cases callback with
  | none => exact ⟨m, rfl⟩
  | some id =>
    obtain ⟨m', hhost⟩ := h.callback id outcome
      { m with journal := m.journal ++ [.callback id outcome] }
    rw [complete, enter_bind]
    exact ⟨m', hhost⟩

/-- An account that closes with what belongs to the result of a task: its lines, a fault of loading,
or a fault that is not announced. -/
inductive Closes : List Item → Except Fault (Option (List Line)) → Prop
  | lines {xs : List Item} {ls : List Line} : Parts xs →
      Closes (xs ++ [.ended ls, .told (.ok ls)]) (.ok (some ls))
  | fault {xs : List Item} {f : Fault} : Parts xs → f.isLoad = true →
      Closes (xs ++ [.failed f, .told (.error f)]) (.ok none)
  | stopped {xs : List Item} {f : Fault} : Parts xs → f.isLoad = false → Closes xs (.error f)

theorem Parts.told_none (h : Parts xs) : ∀ x ∈ xs, x.told? = none :=
  List.filterMap_eq_nil_iff.1 h.told

/-- Where nothing was announced or told before, one more item is not the callback being told. -/
theorem Parts.told_eq {x : Item} (h : Parts xs) (hx : x.told? = none) :
    ∀ y ∈ xs ++ [x], y.told? = none := by
  intro y hy
  rcases List.mem_append.1 hy with hy | hy
  · exact h.told_none y hy
  · rwa [List.mem_singleton.1 hy]

/-- What comes of announcing a turn: an account of parts if the load goes on; the end after the parts
if it is over; and if it fails, whatever was announced, the callback has not been told. -/
inductive Announces (it : Interpreter) (callback : Option String) (m : Machine) :
    List Item → EStateM.Result Fault Machine Turn → Prop
  | waiting {xs : List Item} {load : Load} {m' : Machine} : Parts xs → it.Does callback xs m m' →
      Announces it callback m xs (.ok (.waiting load) m')
  | finished {ys : List Item} {ls : List Line} {m' : Machine} : Parts ys →
      it.Does callback (ys ++ [.ended ls]) m m' →
        Announces it callback m (ys ++ [.ended ls]) (.ok (.finished ls) m')
  | failed {xs : List Item} {f : Fault} {m' : Machine} : it.Does callback xs m m' →
      (∀ x ∈ xs, x.told? = none) →
        (it.Attentive → ∃ ys, Parts ys ∧ xs = if f.isLoad then ys ++ [.failed f] else ys) →
          Announces it callback m xs (.error f m')

/-- A turn that fails: a fault of loading is announced. -/
theorem failed_does (hys : Parts xs) (hdoes : it.Does callback xs m m') (f : Fault) :
    ∃ zs, it.Announces callback m zs (it.failed f m') := by
  by_cases hf : f.isLoad = true
  · cases ha : it.announceFault f m' with
    | ok _ m₂ =>
      have hitem : it.Does callback [.failed f] m' m₂ := .of_ok (by rw [carry_failed, ha])
      rw [failed_eq ha, if_pos hf]
      exact ⟨_, .failed (hdoes.append hitem) (hys.told_eq rfl) fun _ =>
        ⟨xs, hys, (if_pos hf).symm⟩⟩
    | error e m₂ =>
      have hitem : it.Does callback [.failed f] m' m₂ := .of_error (by rw [carry_failed, ha])
      have hfailed : (it.failed f : Act Turn) m' = .error e m₂ := by
        rw [failed, if_pos hf]
        exact bind_error ha _
      rw [hfailed]
      refine ⟨_, .failed (hdoes.append hitem) (hys.told_eq rfl) fun hattentive => ?_⟩
      obtain ⟨n, hn⟩ := hattentive.announceFault_returns f m'
      cases hn.symm.trans ha
  · have hfailed : (it.failed f : Act Turn) m' = .error f m' := by
      rw [failed, if_neg hf]
      rfl
    rw [hfailed]
    exact ⟨xs, .failed hdoes hys.told_none fun _ => ⟨xs, hys, (if_neg hf).symm⟩⟩

/-- A turn that ends a load with its lines, which are announced. -/
theorem succeeded_does (hys : Parts xs) (hdoes : it.Does callback xs m m') (ls : List Line) :
    ∃ zs, it.Announces callback m zs
      ((it.succeeded ls >>= fun ls => pure (.finished ls)) m') := by
  obtain ⟨log, hlog⟩ : ∃ log, logLoaded ls.length m' = .ok () { m' with log } := ⟨_, rfl⟩
  have hlogged : it.Does callback xs m { m' with log } := hdoes.until rfl
  have hsucceeded : (it.succeeded ls >>= fun ls => pure (Turn.finished ls)) m' =
      (it.emit .ended [.results ls] >>= fun _ => pure (.finished ls)) { m' with log } := by
    rw [succeeded, bind_assoc, bind_ok hlog, bind_assoc]
    rfl
  rw [hsucceeded]
  cases he : it.emit .ended [.results ls] { m' with log } with
  | ok heard m₂ =>
    have hitem : it.Does callback [.ended ls] { m' with log } m₂ :=
      .of_ok (by rw [carry_ended]; exact bind_ok he _)
    rw [bind_ok he]
    exact ⟨_, .finished hys (hlogged.append hitem)⟩
  | error e m₂ =>
    have hitem : it.Does callback [.ended ls] { m' with log } m₂ :=
      .of_error (by rw [carry_ended]; exact bind_error he _)
    rw [bind_error he]
    refine ⟨_, .failed (hlogged.append hitem) (hys.told_eq rfl) fun hattentive => ?_⟩
    obtain ⟨heard, n, hn⟩ := hattentive.emit_returns .ended [.results ls] { m' with log }
    cases hn.symm.trans he

theorem announced_does {turn : Act Turn} (hturn : turn.Moves (it.DoesParts callback))
    (m : Machine) : ∃ xs, it.Announces callback m xs (it.announced turn m) := by
  obtain ⟨ys, hys, hdoes⟩ := hturn m
  cases ht : turn m with
  | error f m₁ =>
    rw [after, ht] at hdoes
    rw [announced_error ht]
    exact failed_does hys hdoes f
  | ok r m₁ =>
    rw [after, ht] at hdoes
    cases r with
    | waiting load =>
      rw [announced_waiting ht]
      exact ⟨ys, .waiting hys hdoes⟩
    | finished ls =>
      rw [announced_finished ht]
      exact succeeded_does hys hdoes ls

/-- An account that goes with the stage that a task comes to: the callback is told once at most,
there is nothing but parts unless the task has ended, and then it closes with what belongs to the
result if nobody fails over the announcement. -/
structure Fits (it : Interpreter) (xs : List Item) (stage : Stage) : Prop where
  once : (xs.filterMap Item.told?).length ≤ 1
  ongoing : stage.isDone = false → Parts xs
  closes : it.Attentive → ∀ r, stage = .done r → Closes xs r

theorem told_of_none (h : ∀ x ∈ xs, x.told? = none) : xs.filterMap Item.told? = [] :=
  List.filterMap_eq_nil_iff.2 h

/-- A task that is stopped without a word. -/
theorem fits_stopped {f : Fault} (hxs : Parts xs) (hf : f.isLoad = false) :
    it.Fits xs (.done (.error f)) where
  once := by
    rw [hxs.told]
    exact Nat.zero_le 1
  ongoing h := by cases h
  closes _ r h := by
    cases h
    exact .stopped hxs hf

/-- A task whose callback is told how the load ended. -/
theorem fits_told {outcome : Outcome} {result : Option (List Line)} {told : Except Fault Unit}
    (hxs : ∀ x ∈ xs, x.told? = none)
    (hcloses : it.Attentive → told = .ok () ∧ Closes (xs ++ [.told outcome]) (.ok result)) :
    it.Fits (xs ++ [.told outcome]) (stageAfter result told) where
  once := by
    rw [List.filterMap_append, told_of_none hxs]
    exact Nat.le_refl 1
  ongoing h := by
    rw [stageAfter_isDone] at h
    cases h
  closes hattentive r hr := by
    obtain ⟨rfl, hclosed⟩ := hcloses hattentive
    cases hr
    exact hclosed

theorem complete_after (it : Interpreter) (callback : Option String) (outcome : Outcome)
    (m : Machine) : ∃ told, (it.complete callback outcome).attempt m =
        .ok told (((Item.told outcome).carry it callback).after m) ∧
      (it.Attentive → told = .ok ()) := by
  rw [carry_told, after]
  cases hc : it.complete callback outcome m with
  | ok u m' => exact ⟨.ok (), attempt_ok hc, fun _ => rfl⟩
  | error e m' =>
    refine ⟨.error e, attempt_error hc, fun hattentive => ?_⟩
    obtain ⟨m₁, hm₁⟩ := hattentive.complete_returns callback outcome m
    cases hm₁.symm.trans hc

theorem release_face (task : Task) (h : Handle) (m : Machine) :
    (released task h m).face = m.face :=
  (upkeep_face.moves_release task h).of_ok (release_eq task h m)

/-- The turn of a task whose source is open has an account that fits. -/
theorem runTurn_does (task : Task) (h : Handle) {turn : Act Turn}
    (hturn : turn.Moves (it.DoesParts task.callback)) (m : Machine) :
    ∃ xs stage m', it.runTurn task h turn m = .ok stage m' ∧
      it.Does task.callback xs m m' ∧ it.Fits xs stage := by
  obtain ⟨xs, hannounces⟩ := announced_does hturn m
  generalize hann : it.announced turn m = r at hannounces
  cases hannounces with
  | @waiting _ load m₁ hys hdoes =>
    refine ⟨xs, .reading load, m₁, runTurn_waiting hann, hdoes, ?_, fun _ => hys, nofun⟩
    rw [hys.told]
    exact Nat.zero_le 1
  | @finished ys ls m₁ hys hdoes =>
    obtain ⟨told, hcomplete, hok⟩ := complete_after it task.callback (.ok ls) (released task h m₁)
    refine ⟨_, stageAfter (some ls) told, _, runTurn_finished hann hcomplete,
      (hdoes.until (release_face task h m₁)).append (.single (.told (.ok ls)) _),
      fits_told (hys.told_eq rfl) fun hattentive => ⟨hok hattentive, ?_⟩⟩
    rw [List.append_assoc]
    exact .lines hys
  | @failed _ f m₁ hdoes htold hcloses =>
    by_cases hf : f.isLoad = true
    · obtain ⟨told, hcomplete, hok⟩ := complete_after it task.callback (.error f) m₁
      refine ⟨_, stageAfter none told, released task h _, runTurn_failing hann hf hcomplete,
        (hdoes.append (.single (.told (.error f)) m₁)).until (release_face task h _),
        fits_told htold fun hattentive => ⟨hok hattentive, ?_⟩⟩
      obtain ⟨ys, hys, rfl⟩ := hcloses hattentive
      rw [if_pos hf, List.append_assoc]
      exact .fault hys hf
    · have hpasses : f.isLoad = false := by simpa using hf
      refine ⟨xs, .done (.error f.leaving), released task h m₁, runTurn_passing hann hpasses,
        hdoes.until (release_face task h m₁), ?_, nofun, ?_⟩
      · rw [told_of_none htold]
        exact Nat.zero_le 1
      · intro hattentive r hr
        obtain ⟨ys, hys, rfl⟩ := hcloses hattentive
        cases hr
        rw [if_neg hf]
        exact .stopped hys (f.isLoad_leaving.trans hpasses)

theorem startTask_does (task : Task) (m : Machine) :
    ∃ xs stage m', it.startTask task m = .ok stage m' ∧ it.Does task.callback xs m m' ∧
      it.Fits xs stage := by
  have hopened : ((it.openOrigin task.origin).after m).face = m.face :=
    upkeep_face.moves_openOrigin it task.origin m
  cases ho : it.openOrigin task.origin m with
  | ok h m₁ =>
    rw [after, ho] at hopened
    obtain ⟨xs, stage, m', hrun, hdoes, hfits⟩ :=
      runTurn_does task h (begin_doesParts h .null) m₁
    exact ⟨xs, stage, m', (startTask_opened ho).trans hrun, hdoes.before hopened, hfits⟩
  | error f m₁ =>
    rw [after, ho] at hopened
    by_cases hf : f.isLoad = true
    · cases ha : it.announceFault f m₁ with
      | ok u m₂ =>
        obtain ⟨told, hcomplete, hok⟩ := complete_after it task.callback (.error f) m₂
        have hreport : attempt (it.announceFault f >>= fun _ =>
            it.complete task.callback (.error f)) m₁ = _ :=
          (attempt_congr (bind_ok ha _)).trans hcomplete
        have hfits : it.Fits ([.failed f] ++ [.told (.error f)]) (stageAfter none told) :=
          fits_told (parts_nil.told_eq rfl) fun hattentive => ⟨hok hattentive, .fault parts_nil hf⟩
        refine ⟨[.failed f, .told (.error f)], _, _, startTask_failing ho hf hreport,
          .item hopened ?_, hfits⟩
        rw [carry_failed, after, ha]
        exact .single (.told (.error f)) m₂
      | error e m₂ =>
        have hreport : attempt (it.announceFault f >>= fun _ =>
            it.complete task.callback (.error f)) m₁ = _ := attempt_error (bind_error ha _)
        refine ⟨[.failed f], .done (.error e.leaving), m₂, startTask_failing ho hf hreport,
          .item hopened (.idle ?_), Nat.zero_le 1, fun hgoing => ?_, fun hattentive => ?_⟩
        · rw [carry_failed, after, ha]
        · cases hgoing
        · obtain ⟨m', hm'⟩ := hattentive.announceFault_returns f m₁
          cases hm'.symm.trans ha
    · have hpasses : f.isLoad = false := by simpa using hf
      exact ⟨[], .done (.error f.leaving), m₁, startTask_passing ho hpasses, .idle hopened,
        fits_stopped parts_nil (f.isLoad_leaving.trans hpasses)⟩

/-- A task that was cancelled is stopped without a word. -/
theorem cancelTask_does (task : Task) (m : Machine) :
    ∃ m', cancelTask task m = .ok (.done (.error .cancelled)) m' ∧ m'.face = m.face := by
  cases hstage : task.stage with
  | reading load =>
    rw [cancelTask, hstage]
    exact ⟨_, bind_ok (release_eq task _ m) _, release_face task _ m⟩
  | _ =>
    rw [cancelTask, hstage]
    exact ⟨m, rfl, rfl⟩

/-- The turn of a task that has not ended has an account that fits. -/
theorem advance_does (it : Interpreter) {task : Task} (hstage : task.stage.isDone = false)
    (m : Machine) : ∃ xs stage m', it.advance task m = .ok stage m' ∧ it.Does task.callback xs m m' ∧
      it.Fits xs stage := by
  cases hc : task.cancelled with
  | true =>
    obtain ⟨m', hcancel, hface⟩ := cancelTask_does task m
    rw [advance_cancelled hstage hc]
    exact ⟨[], _, m', hcancel, .idle hface, fits_stopped parts_nil rfl⟩
  | false =>
    cases hs : task.stage with
    | done r =>
      rw [hs] at hstage
      cases hstage
    | scheduled =>
      rw [advance_scheduled hs hc]
      exact startTask_does task m
    | reading load =>
      rw [advance_reading hs hc]
      exact runTurn_does task _ (resume_doesParts load) m

theorem enterStage_face (m : Machine) (i : Nat) (stage : Stage) :
    (m.enterStage i stage).face = m.face := by
  obtain ⟨queue, heq⟩ := m.enterStage_eq i stage
  rw [heq]
  rfl

/-- Every turn of a task that has not ended has an account that goes with the stage that the task
comes to. -/
theorem runTask_does {i : Nat} {task : Task} (htask : m.tasks[i]? = some task)
    (hstage : task.stage.isDone = false) :
    ∃ xs stage m', it.advance task m = .ok stage m' ∧
      it.runTask i m = .ok () (m'.enterStage i stage) ∧
      it.Does task.callback xs m (m'.enterStage i stage) ∧ it.Fits xs stage := by
  obtain ⟨xs, stage, m', hadvance, hdoes, hfits⟩ := it.advance_does hstage m
  exact ⟨xs, stage, m', hadvance, runTask_eq htask hadvance,
    hdoes.until (enterStage_face m' i stage), hfits⟩

end Interpreter

end Gcode
