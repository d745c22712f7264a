import Gcode.Proofs.Chunks
import Gcode.Proofs.Course

/-!
A load follows its course. If host code returns and stays out of the loads, each step of a load is
the next step of its course, and all that it does to streams and sources it does to its own. Main
statements: so does every turn of a load, the first one and the later ones (`begin_follows`,
`resume_follows`).
-/

namespace Gcode

open Act

namespace Machine

variable {m m' : Machine} {t i : Nat} {v : View} {src : Source} {s : Stream}

/-- A source is seen as before, except for what it has counted. -/
theorem Sees.countRead (hm : m.Orderly) (hv : m.Sees (.source i) t v) (n : Nat) :
    (m.countRead (m.passage i) n).Sees (.source i) t { v with consumed := v.consumed + n } := by
  cases hv with
  | @source _ src s hreads =>
    have hnot : i ∉ src.inner := fun hi =>
      Nat.lt_irrefl i (hm.inner i src hreads.source i hi).1
    have hcounted := hreads.countRead (m.passage i) n
    rw [count_passage hreads.source hnot, Nat.one_mul] at hcounted
    rw [← sourceNames_passage_eq hm (frame_countRead hm hreads.source n).sources hreads.source]
    exact .source hcounted

theorem frame_of_sees_countRead (hm : m.Orderly) (hv : m.Sees (.source i) t v) (n : Nat) :
    m.Frame t (m.countRead (m.passage i) n) := by
  cases hv with
  | source hreads => exact frame_countRead hm hreads.source n

end Machine

/-- Where a load stands, which reads a stream. -/
def Phase.Shows (m : Machine) (t : Nat) (c : Standing) (p : Phase) : Prop :=
  c.phase = p.plain ∧
    match p with
    | .due load | .got load _ => m.Sees (.source load.source) t c.view
    | .ended _ => True

theorem Load.shows_iff {load : Load} {m : Machine} {t : Nat} {c : Standing} :
    load.phase.Shows m t c ↔
      c.phase = load.phase.plain ∧ m.Sees (.source load.source) t c.view := by
  rw [phase]
  split <;> rfl

namespace Interpreter

variable {it : Interpreter} {m m' m'' : Machine} {t : Nat}
  {xs ys : List Item} {c : Standing} {v : View} {p p' : Phase} {load load' : Load}

/-- What a load does for others without touching a stream. -/
structure Calls (it : Interpreter) (callback : Option String) (xs : List Item) (m m' : Machine) :
    Prop where
  does : it.Does callback xs m m'
  out : m.StaysOut m'

/-- What a load does for others while it works on its stream. -/
structure Works (it : Interpreter) (callback : Option String) (t : Nat) (xs : List Item)
    (m m' : Machine) : Prop where
  does : it.Does callback xs m m'
  frame : m.Frame t m'

theorem Calls.append {callback : Option String} (h : it.Calls callback xs m m')
    (h' : it.Calls callback ys m' m'') : it.Calls callback (xs ++ ys) m m'' :=
  ⟨h.does.append h'.does, h.out.trans h'.out⟩

theorem Calls.works {callback : Option String} (h : it.Calls callback xs m m')
    (ht : t < m.streams.length) : it.Works callback t xs m m' :=
  ⟨h.does, h.out.frame ht⟩

theorem Works.append {callback : Option String} (h : it.Works callback t xs m m')
    (h' : it.Works callback t ys m' m'') : it.Works callback t (xs ++ ys) m m'' :=
  ⟨h.does.append h'.does, h.frame.trans h'.frame⟩

/-- What nobody sees. -/
theorem works_quietly {callback : Option String} (hface : m'.face = m.face) (hframe : m.Frame t m') :
    it.Works callback t [] m m' :=
  ⟨.idle hface, hframe⟩

theorem calls_item {callback : Option String} (x : Item) (h : x.carry it callback m = .ok () m')
    (hout : m.StaysOut m') : it.Calls callback [x] m m' :=
  ⟨.of_ok h, hout⟩

/-! ### What the data of a read leads to -/

theorem calls_log (it : Interpreter) (callback : Option String) (m : Machine)
    (log : List Log.Record) : it.Calls callback [] m { m with log } :=
  ⟨.idle rfl, m.staysOut_log log⟩

theorem calls_linesOf (callback : Option String) {r : Reading} {ls : List Line}
    (h : r.lines = .ok ls) : ∃ m', linesOf r m = .ok ls m' ∧ it.Calls callback [] m m' := by
  obtain ⟨log, hlines⟩ := linesOf_eq_ok h m
  exact ⟨_, hlines, it.calls_log callback m log⟩

theorem calls_linesOf_error (callback : Option String) {r : Reading} {f : Fault}
    (h : r.lines = .error f) : ∃ m', linesOf r m = .error f m' ∧ it.Calls callback [] m m' := by
  obtain ⟨log, hlines⟩ := linesOf_error h m
  exact ⟨_, hlines, it.calls_log callback m log⟩

theorem calls_deliver (callback : Option String) (hit : it.Considerate) (ls : List Line)
    (m : Machine) : ∃ m', it.deliver ls m = .ok () m' ∧ it.Calls callback [.lines ls] m m' := by
  obtain ⟨m', hdeliver, -, -, hout⟩ := deliver_calls hit ls m
  exact ⟨m', hdeliver, calls_item (.lines ls) hdeliver hout⟩

theorem calls_progress (callback : Option String) (hit : it.Considerate)
    (hv : m.Sees (.source load.source) t v) :
    ∃ m', it.announceProgress load.source m = .ok () m' ∧
      it.Calls callback [.progress v.consumed v.total] m m' := by
  cases hv with
  | source hreads =>
    obtain ⟨heard, m', hemit, hout, -⟩ :=
      hit.emit_eq .progress [.progress _ _] m
    have hgive : it.give (.progress _ _) m = .ok () m' := bind_ok hemit _
    exact ⟨m', (announceProgress_eq hreads.source).trans hgive,
      calls_item (.progress _ _) (by rw [carry_progress, hgive]) hout⟩

/-- The end of the document. -/
theorem finish_follows (callback : Option String) (hit : it.Considerate) (load : Load)
    (m : Machine) :
    ∃ m', it.finish load m = ofExcept (Standing.finish load).2 m' ∧
      it.Calls callback (Standing.finish load).1 m m' := by
  rw [finish_eq, Standing.finish]
  cases hcompleted : (load.reader.feed load.decoder.finish).1.lines with
  | error f =>
    obtain ⟨m₁, hlines, hcalls⟩ := calls_linesOf_error (m := m) callback hcompleted
    exact ⟨m₁, bind_error hlines _, hcalls⟩
  | ok completed =>
    obtain ⟨m₁, hlines, hcalls₁⟩ := calls_linesOf (m := m) callback hcompleted
    obtain ⟨m₂, hdeliver, hcalls₂⟩ := calls_deliver callback hit completed m₁
    have hcalls := hcalls₁.append hcalls₂
    cases hlast : (load.reader.feed load.decoder.finish).2.flush.1.lines with
    | error f =>
      obtain ⟨m₃, hlines', hcalls₃⟩ := calls_linesOf_error (m := m₂) callback hlast
      exact ⟨m₃, (bind_ok hlines _).trans ((bind_ok hdeliver _).trans (bind_error hlines' _)),
        hcalls.append hcalls₃⟩
    | ok last =>
      obtain ⟨m₃, hlines', hcalls₃⟩ := calls_linesOf (m := m₂) callback hlast
      obtain ⟨m₄, hdeliver', hcalls₄⟩ := calls_deliver callback hit last m₃
      exact ⟨m₄, (bind_ok hlines _).trans ((bind_ok hdeliver _).trans
        ((bind_ok hlines' _).trans (bind_ok hdeliver' _))), hcalls.append (hcalls₃.append hcalls₄)⟩

/-- A piece of the document. -/
theorem ingest_follows (callback : Option String) (hit : it.Considerate) (hm : m.Orderly)
    (hv : m.Sees (.source load.source) t v) (p : Piece) :
    ∃ m', it.Calls callback (Standing.ingest load p v).1 m m' ∧
      ((∃ load', it.ingest load p m = .ok load' m' ∧
          (Standing.ingest load p v).2 = .due load' ∧ m'.Sees (.source load'.source) t v) ∨
        ∃ f, it.ingest load p m = .error f m' ∧
          (Standing.ingest load p v).2 = .ended (.error f)) := by
  rw [ingest_eq, Standing.ingest]
  cases hcompleted : (load.reader.feed (p.decode load.decoder).1).1.lines with
  | error f =>
    obtain ⟨m₁, hlines, hcalls⟩ := calls_linesOf_error (m := m) callback hcompleted
    exact ⟨m₁, hcalls, .inr ⟨f, bind_error hlines _, rfl⟩⟩
  | ok ls =>
    obtain ⟨m₁, hlines, hcalls₁⟩ := calls_linesOf (m := m) callback hcompleted
    obtain ⟨m₂, hdeliver, hcalls₂⟩ := calls_deliver callback hit ls m₁
    have hleaves := (hcalls₁.append hcalls₂).out.toLeavesLoads
    obtain ⟨m₃, hprogress, hcalls₃⟩ := calls_progress callback hit (hleaves.sees hm hv)
    have hcalls := hcalls₁.append (hcalls₂.append hcalls₃)
    refine ⟨m₃, hcalls, .inl ⟨_, ?_, rfl, hcalls.out.toLeavesLoads.sees hm hv⟩⟩
    exact (bind_ok hlines _).trans ((bind_ok hdeliver _).trans (bind_ok hprogress _))

theorem accept_none {i : Nat} {data : Literal} (hp : Piece.ofLiteral? data = none) :
    accept i data m = .error (match m.sourceNames (m.passage i) with
      | [] => .noSource
      | name :: names => reported names (.wrongData name data.typeName)) m := by
  rw [accept, get_bind, hp]
  cases m.sourceNames (m.passage i) <;> rfl

/-- The data of a read leads to the next step of the course. -/
theorem receive_follows (callback : Option String) (hit : it.Considerate) (hm : m.Orderly)
    (hv : m.Sees (.source load.source) t v) (data : Literal) :
    ∃ p' m', it.Step (.got load data) m p' m' ∧
      p'.Shows m' t (Standing.receive load.plain data v).2 ∧
      it.Works callback t ((Standing.receive load.plain data v).1.flatMap Bout.items) m m' := by
  rw [Standing.receive]
  cases hp : Piece.ofLiteral? data with
  | none =>
    cases hv with
    | source hreads =>
      refine ⟨_, m, .failed (bind_error (accept_none hp) _), ⟨rfl, trivial⟩,
        works_quietly rfl (.refl _ m)⟩
  | some p =>
    have haccept : accept load.source data m = .ok p _ := accept_eq_ok hp
    have hv₁ := hv.countRead hm p.length
    have hframe := Machine.frame_of_sees_countRead hm hv p.length
    have hface : (m.countRead (m.passage load.source) p.length).face = m.face :=
      Machine.face_of_core (Machine.countRead_core _ _ m)
    have hworks : it.Works callback t [] m (m.countRead (m.passage load.source) p.length) :=
      works_quietly hface hframe
    dsimp only
    by_cases hlen : p.length = 0
    · obtain ⟨m', hfinish, hcalls⟩ := finish_follows callback hit load
        (m.countRead (m.passage load.source) p.length)
      have hplain : Standing.finish load.plain = Standing.finish load := rfl
      have hreceive : it.receive load data m =
          (it.finish load >>= fun ls => pure (.inr ls))
            (m.countRead (m.passage load.source) p.length) := by
        rw [receive, bind_ok haccept, if_pos hlen]
      rw [if_pos hlen, hplain, List.flatMap_singleton, Bout.items]
      refine ⟨.ended (Standing.finish load).2, m', ?_, ⟨rfl, trivial⟩,
        hworks.append (hcalls.works hv₁.lt_length)⟩
      cases hend : (Standing.finish load).2 with
      | ok ls =>
        rw [hend] at hfinish
        exact .finished (hreceive.trans (bind_ok hfinish _))
      | error f =>
        rw [hend] at hfinish
        exact .failed (hreceive.trans (bind_error hfinish _))
    · obtain ⟨m', hcalls, hend⟩ := ingest_follows callback hit (hframe.orderly hm) hv₁ p
      have hworks' := hworks.append (hcalls.works hv₁.lt_length)
      have hreceive : it.receive load data m =
          (it.ingest load p >>= fun load => pure (.inl load))
            (m.countRead (m.passage load.source) p.length) := by
        rw [receive, bind_ok haccept, if_neg hlen]
      rw [if_neg hlen, Standing.ingest_plain, List.flatMap_singleton, Bout.items]
      rcases hend with ⟨load', hingest, hphase, hv'⟩ | ⟨f, hingest, hphase⟩
      · refine ⟨.due load', m', .received (hreceive.trans (bind_ok hingest _)), ⟨?_, hv'⟩,
          hworks'⟩
        rw [hphase]
      · refine ⟨.ended (.error f), m', .failed (hreceive.trans (bind_error hingest _)), ⟨?_, trivial⟩,
          hworks'⟩
        rw [hphase]

/-! ### Steps and turns -/

/-- Data that was received has been received in one way only. -/
theorem got_unique {data : Literal} (h : it.Step (.got load data) m p m')
    (h' : it.Step (.got load data) m p' m'') : p = p' ∧ m' = m'' := by
  cases h with
  | received h =>
    cases h' with
    | received h' => cases h.symm.trans h'; exact ⟨rfl, rfl⟩
    | finished h' => cases h.symm.trans h'
    | failed h' => cases h.symm.trans h'
  | finished h =>
    cases h' with
    | received h' => cases h.symm.trans h'
    | finished h' => cases h.symm.trans h'; exact ⟨rfl, rfl⟩
    | failed h' => cases h.symm.trans h'
  | failed h =>
    cases h' with
    | received h' => cases h.symm.trans h'
    | finished h' => cases h.symm.trans h'
    | failed h' => cases h.symm.trans h'; exact ⟨rfl, rfl⟩

/-- A step of a load is the next step of its course. -/
theorem Step.follows (callback : Option String) (hit : it.Considerate) (hm : m.Orderly)
    (hstep : it.Step p m p' m') (h : p.Shows m t c) :
    p'.Shows m' t (c.step it.chunkSize).2 ∧
      it.Works callback t ((c.step it.chunkSize).1.flatMap Bout.items) m m' := by
  obtain ⟨phase, v⟩ := c
  cases p with
  | ended outcome => cases hstep
  | got load data =>
    obtain ⟨hphase, hv⟩ := h
    obtain ⟨p₁, m₁, hstep₁, hshows, hworks⟩ := receive_follows callback hit hm hv data
    obtain ⟨rfl, rfl⟩ := got_unique hstep hstep₁
    cases hphase
    exact ⟨hshows, hworks⟩
  | due load =>
    obtain ⟨hphase, hv⟩ := h
    cases hphase
    cases hv with
    | @source _ src s hreads =>
      cases hstep with
      | taken htake =>
        obtain ⟨s', hread, rfl⟩ := take_inv hreads htake
        rw [Standing.step_taken hread]
        exact ⟨⟨rfl, .source (hreads.updateStream s')⟩,
          works_quietly rfl (m.frame_updateStream _ _)⟩
      | unread htake =>
        rcases hread : s.read it.chunkSize with ⟨got, s'⟩
        cases got with
        | ok data => cases (take_eq_ok hreads hread).symm.trans htake
        | error f =>
          cases (take_eq_error hreads hread).symm.trans htake
          rw [Standing.step_unread hread]
          exact ⟨⟨rfl, trivial⟩, works_quietly rfl (m.frame_updateStream _ _)⟩

/-- Steps of a load are the next steps of its course. -/
theorem Steps.follows (callback : Option String) (hit : it.Considerate) {n : Nat}
    (hsteps : it.Steps n p m p' m') : ∀ {c : Standing}, m.Orderly → p.Shows m t c →
      p'.Shows m' t (c.ahead it.chunkSize n) ∧
        it.Works callback t (c.items it.chunkSize n) m m' := by
  induction hsteps with
  | none => exact fun _ h => ⟨h, works_quietly rfl (.refl _ _)⟩
  | more hstep _ ih =>
    intro c hm h
    obtain ⟨hshows, hworks⟩ := hstep.follows callback hit hm h
    obtain ⟨hshows', hworks'⟩ := ih (hworks.frame.orderly hm) hshows
    refine ⟨hshows', ?_⟩
    rw [Standing.items, Standing.bouts, List.flatMap_append]
    exact hworks.append hworks'

/-- What comes of a turn that was taken: the load waits for its next turn, or it is over. -/
def Course (it : Interpreter) (callback : Option String) (t : Nat) (c : Standing) (m : Machine)
    (r : EStateM.Result Fault Machine Turn) : Prop :=
  ∃ n p m', Comes r p m' ∧ p.Shows m' t (c.ahead it.chunkSize n) ∧
    it.Works callback t (c.items it.chunkSize n) m m'

/-- Every turn of a load follows its course. -/
theorem resume_follows (callback : Option String) (hit : it.Considerate) (hm : m.Orderly)
    (h : load.phase.Shows m t c) : it.Course callback t c m (it.resume load m) := by
  rcases it.resume_steps load m with ⟨n, p', m', hsteps, hcomes, -⟩ | ⟨left, hleft, hwait⟩
  · obtain ⟨hshows, hworks⟩ := hsteps.follows callback hit hm h
    exact ⟨n + 1, p', m', hcomes, hshows, hworks⟩
  · rw [hwait]
    have hphase : { load with wait := .turns left }.phase = load.phase := by
      rw [Load.phase, Load.phase, hleft]
      rfl
    exact ⟨0, _, m, .waiting, hphase ▸ h, works_quietly rfl (.refl _ _)⟩

/-! ### First turns -/

/-- A load before its first read. -/
def firstLoad (source : Nat) (strict : Bool) (encoding : Text.Encoding) : Load where
  source := source
  reader := { strict }
  decoder := { encoding }
  wait := .turns 0

/-- Where a load stands before its first read. -/
def outset (it : Interpreter) (strict : Bool) (v : View) : Standing :=
  match encodingNamed it.encoding with
  | .ok encoding => ⟨.due (firstLoad 0 strict encoding), v⟩
  | .error f => ⟨.ended (.error f), v⟩

/-- A new source of a stream is seen as such. -/
theorem sees_addSource {s : Stream} (h : m.streams[t]? = some s) (total name : Literal) :
    (m.addSource { stream := t, total, name := Source.nameFor name s.label s.typeName }).Sees
      (.source m.sources.length) t (.ofStream s total name) := by
  have hreads : (m.addSource
      { stream := t, total, name := Source.nameFor name s.label s.typeName }).Reads m.sources.length
        { stream := t, total, name := Source.nameFor name s.label s.typeName } s :=
    Machine.Reads.addSource h
  have htitles : (m.addSource
      { stream := t, total, name := Source.nameFor name s.label s.typeName }).sourceNames
        ((m.addSource { stream := t, total, name := Source.nameFor name s.label s.typeName }).passage
          m.sources.length) = [(Source.nameFor name s.label s.typeName).display] := by
    simp [Machine.passage, Machine.sourceNames, Machine.addSource, Source.title]
  have hsees := Machine.Sees.source hreads
  rw [htitles] at hsees
  exact hsees

theorem sourceOf_sees (it : Interpreter) {h : Handle} (hv : m.Sees h t v) (callback : Option String) :
    ∃ i m', sourceOf h m = .ok i m' ∧ m'.Sees (.source i) t v ∧ it.Works callback t [] m m' := by
  cases hv with
  | stream hs =>
    exact ⟨_, _, wrapStream_eq hs .null .null, sees_addSource hs .null .null,
      works_quietly rfl (Machine.frame_addSource _ rfl _ m)⟩
  | source hreads => exact ⟨_, m, rfl, .source hreads, works_quietly rfl (.refl _ m)⟩

theorem prepare_sees (hintact : it.Intact) {encoding : Text.Encoding}
    (hencoding : encodingNamed it.encoding = .ok encoding) {h : Handle} (hv : m.Sees h t v)
    (callback : Option String) :
    ∃ i m', it.prepare h .null m = .ok (firstLoad i m.strict encoding) m' ∧
      m'.Sees (.source i) t v ∧ it.Works callback t [] m m' := by
  obtain ⟨i, m₁, hsource, hv₁, hworks⟩ := sourceOf_sees it hv callback
  have hnamed : Act.ofExcept (encodingNamed it.encoding) m₁ = .ok encoding m₁ := by
    rw [hencoding]
    rfl
  have htotal : setTotal i .null m₁ = .ok () m₁ := rfl
  cases hv₁ with
  | @source _ src s hreads =>
    obtain ⟨log, hprepare⟩ : ∃ log, it.prepare h .null m =
        .ok (firstLoad i m.strict encoding) { m₁ with log } := by
      rw [prepare, hintact.call_eq, hintact.call_eq, bind_ok hsource, bind_ok htotal, bind_ok hnamed,
        bind_ok (sourceAt_eq hreads.source), ← hworks.frame.strict]
      exact ⟨_, rfl⟩
    have hlogged : it.Works callback src.stream [] m₁ { m₁ with log } :=
      (it.calls_log callback m₁ log).works (Machine.Sees.source hreads).lt_length
    exact ⟨i, _, hprepare, .source ⟨hreads.source, hreads.stream⟩, hworks.append hlogged⟩

theorem prepare_unnamed (hintact : it.Intact) {f : Fault}
    (hencoding : encodingNamed it.encoding = .error f) {h : Handle} (hv : m.Sees h t v)
    (callback : Option String) :
    ∃ m', it.prepare h .null m = .error f m' ∧ it.Works callback t [] m m' := by
  obtain ⟨i, m₁, hsource, -, hworks⟩ := sourceOf_sees it hv callback
  have hnamed : Act.ofExcept (encodingNamed it.encoding) m₁ = .error f m₁ := by
    rw [hencoding]
    rfl
  have htotal : setTotal i .null m₁ = .ok () m₁ := rfl
  refine ⟨m₁, ?_, hworks⟩
  rw [prepare, hintact.call_eq, hintact.call_eq, bind_ok hsource, bind_ok htotal, bind_error hnamed]

/-- The first turn of a load follows its course. -/
theorem begin_follows (callback : Option String) (hit : it.Considerate) (hm : m.Orderly) {h : Handle}
    (hv : m.Sees h t v) :
    it.Course callback t (it.outset m.strict v) m (it.begin h .null m) := by
  rw [outset]
  cases hencoding : encodingNamed it.encoding with
  | error f =>
    obtain ⟨m', hprepare, hworks⟩ := prepare_unnamed hit.intact hencoding hv callback
    rw [begin_eq, bind_error hprepare]
    exact ⟨0, _, m', .failed, ⟨rfl, trivial⟩, hworks⟩
  | ok encoding =>
    obtain ⟨i, m₁, hprepare, hv₁, hworks⟩ := prepare_sees hit.intact hencoding hv callback
    obtain ⟨n, p', m', hsteps, hcomes, -⟩ := begin_steps hprepare
    have hm₁ := hworks.frame.orderly hm
    have hstart : (Phase.due (firstLoad i m.strict encoding)).Shows m₁ t
        ⟨.due (firstLoad 0 m.strict encoding), v⟩ := ⟨rfl, hv₁⟩
    obtain ⟨hshows, hworks'⟩ := hsteps.follows callback hit hm₁ hstart
    exact ⟨n, p', m', hcomes, hshows, hworks.append hworks'⟩

end Interpreter

end Gcode
