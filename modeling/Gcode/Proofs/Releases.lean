import Gcode.Proofs.Completion
import Gcode.Proofs.Interleaving

/-!
What a load opens and closes. A load of a text or a file opens a stream of its own and closes it when
it ends; the stream of another is never closed. An account of a turn lists what is opened and closed
in it and the calls of host code, which may do anything; in between nothing is opened or closed. Main
statement: whatever host code does, the account of a task that has ended closes exactly what it has
opened, once, and before the callback is told of success (`load_releases`).
-/

namespace Gcode

open Act

/-- What is done to streams in a turn: one is opened, one is closed, or host code is called. -/
inductive Occurrence where
  | opened (stream : Nat)
  | closed (stream : Nat)
  | called (x : Entry)

namespace Occurrence

/-- Is it a call of a handler, a method or a listener? -/
def isCall : Occurrence → Bool
  | .called x => x.isCall
  | _ => false

/-- The number of the stream that is closed. -/
def closed? : Occurrence → Option Nat
  | .closed j => some j
  | _ => none

/-- A stream is opened, if there is one to open. -/
def opening (held : Option Nat) : List Occurrence := held.toList.map .opened

/-- A stream is closed, if there is one to close. -/
def closing (held : Option Nat) : List Occurrence := held.toList.map .closed

/-- The callback is told, if there is one. -/
def telling (callback : Option String) (outcome : Outcome) : List Occurrence :=
  callback.toList.map fun id => .called (.callback id outcome)

end Occurrence

/-- Is it no call of a line callback? A load in the background has none. -/
def Entry.inBackground : Entry → Bool
  | .lineDone _ _ _ _ => false
  | _ => true

/-- Is the task reading what it has opened? -/
def Stage.isReading : Stage → Bool
  | .reading _ => true
  | _ => false

namespace Machine

/-- How often each stream was closed, and whether it can be. -/
def closings (m : Machine) : List (Nat × Bool) := m.streams.map fun s => (s.closes, s.closable)

/-- The sources that were there read the same streams. -/
def KeepsSources (m m' : Machine) : Prop :=
  ∀ (i : Nat) (src : Source), m.sources[i]? = some src →
    ∃ src' : Source, m'.sources[i]? = some src' ∧ src'.stream = src.stream

/-- A stream is neither opened nor closed. -/
def KeepsClosing (j : Nat) (m m' : Machine) : Prop :=
  ∀ c, m.closings[j]? = some c → m'.closings[j]? = some c

/-- Nothing is opened or closed, and the sources that were there read the same streams. -/
structure Untouched (m m' : Machine) : Prop where
  closings : m'.closings = m.closings
  sources : m.KeepsSources m'

end Machine

namespace Machine

variable {m m' m'' : Machine} {i j : Nat} {src : Source} {s : Stream}

/-! ### What is left alone -/

theorem steady_keepsSources : Steady KeepsSources where
  refl _ _ src h := ⟨src, h, rfl⟩
  trans h h' i src hsrc := by
    obtain ⟨src', hsrc', heq⟩ := h i src hsrc
    obtain ⟨src'', hsrc'', heq'⟩ := h' i src' hsrc'
    exact ⟨src'', hsrc'', heq'.trans heq⟩

theorem steady_untouched : Steady Untouched where
  refl m := ⟨rfl, steady_keepsSources.refl m⟩
  trans h h' :=
    ⟨h'.closings.trans h.closings, steady_keepsSources.trans h.sources h'.sources⟩

theorem keepsSources_of_eq (h : m'.sources = m.sources) : m.KeepsSources m' :=
  fun _ src hsrc => ⟨src, by rw [h, hsrc], rfl⟩

theorem keepsSources_addSource (src : Source) (m : Machine) : m.KeepsSources (m.addSource src) :=
  fun _ src' h =>
    ⟨src', (List.getElem?_append_left (List.getElem?_eq_some_iff.1 h).1).trans h, rfl⟩

theorem keepsSources_updateSource (f : Source → Source) (hf : ∀ src, (f src).stream = src.stream)
    (m : Machine) : m.KeepsSources (m.updateSource i f) :=
  (drains_updateSource f hf).source

theorem keepsSources_countRead (is : List Nat) (n : Nat) (m : Machine) :
    m.KeepsSources (m.countRead is n) :=
  (drains_countRead is n m).source

theorem streams_countRead (is : List Nat) (n : Nat) : ∀ m : Machine,
    (m.countRead is n).streams = m.streams := by
  induction is with
  | nil => exact fun _ => rfl
  | cons i is ih => exact fun m => ih _

theorem untouched_of_eq (hstreams : m'.streams = m.streams) (hsources : m'.sources = m.sources) :
    m.Untouched m' :=
  ⟨by rw [closings, closings, hstreams], keepsSources_of_eq hsources⟩

theorem closings_updateStream {f : Stream → Stream}
    (hf : ∀ s, m.streams[i]? = some s → (f s).closes = s.closes ∧ (f s).closable = s.closable) :
    (m.updateStream i f).closings = m.closings := by
  refine List.ext_getElem? fun j => ?_
  rw [closings, closings, updateStream, List.getElem?_map, List.getElem?_map, List.getElem?_modify]
  cases hs : m.streams[j]? with
  | none => rfl
  | some s =>
    by_cases hij : i = j
    · subst hij
      obtain ⟨hcloses, hclosable⟩ := hf s hs
      simp [hcloses, hclosable]
    · simp [hij]

/-- A read closes nothing. -/
theorem read_untouched (hs : m.streams[i]? = some s) (size : Int) :
    m.Untouched (m.updateStream i fun _ => (s.read size).2) := by
  refine ⟨closings_updateStream fun s' hs' => ?_, keepsSources_of_eq rfl⟩
  cases hs.symm.trans hs'
  rw [Stream.read]
  split
  · exact ⟨rfl, rfl⟩
  · exact ⟨rfl, rfl⟩

end Machine

namespace Interpreter

/-! ### Accounts -/

/-- What an occurrence leads to. A stream that is opened gets the next number. -/
inductive Leads (it : Interpreter) : Occurrence → Machine → Machine → Prop
  | opened {s : Stream} (m : Machine) : s.closes = 0 → s.closable = true →
      Leads it (.opened m.streams.length) m (m.addStream s)
  | closed (j : Nat) (m : Machine) : Leads it (.closed j) m (m.updateStream j Stream.close)
  | called (x : Entry) (m : Machine) : x.inBackground →
      Leads it (.called x) m ((x.call it).after m)

/-- An account: what comes to pass, in order; in between nothing is opened or closed. -/
inductive Passes (it : Interpreter) : List Occurrence → Machine → Machine → Prop
  | idle {m m' : Machine} : m.Untouched m' → Passes it [] m m'
  | deed {d : Occurrence} {ds : List Occurrence} {m m₁ m₂ m' : Machine} : m.Untouched m₁ →
      it.Leads d m₁ m₂ → Passes it ds m₂ m' → Passes it (d :: ds) m m'

variable {it : Interpreter} {m m' m'' : Machine} {xs ys : List Occurrence} {d : Occurrence} {j : Nat}

theorem Passes.before (hm : m.Untouched m') (h : it.Passes xs m' m'') : it.Passes xs m m'' := by
  cases h with
  | idle h => exact .idle (Machine.steady_untouched.trans hm h)
  | deed h hd hrest => exact .deed (Machine.steady_untouched.trans hm h) hd hrest

theorem Passes.append (h : it.Passes xs m m') (h' : it.Passes ys m' m'') :
    it.Passes (xs ++ ys) m m'' := by
  induction h with
  | idle hm => exact h'.before hm
  | deed hm hd _ ih => exact .deed hm hd (ih h')

theorem Passes.until (h : it.Passes xs m m') (hm : m'.Untouched m'') : it.Passes xs m m'' := by
  have := h.append (.idle hm)
  rwa [List.append_nil] at this

theorem Passes.single (h : it.Leads d m m') : it.Passes [d] m m' :=
  .deed (Machine.steady_untouched.refl m) h (.idle (Machine.steady_untouched.refl m'))

/-- Host code that respects a relation does so in every call. -/
theorem Respects.moves_call {R : Machine → Machine → Prop} (hR : Steady R) (hit : it.Respects R)
    {x : Entry} (hx : x.inBackground) : (x.call it).Moves R := by
  cases x with
  | handler id args => exact hR.follows (hit.handler id args) fun _ => hR.nothing ()
  | method mt args => exact hR.follows (hit.method mt args) fun _ => hR.nothing ()
  | listener id payload => exact hit.listener id payload
  | callback id outcome => exact hit.callback id outcome
  | lineDone => cases hx
  | _ => exact hR.nothing ()

theorem Passes.keepsSources (hit : it.Respects Machine.KeepsSources) (h : it.Passes xs m m') :
    m.KeepsSources m' := by
  have hsteady : Steady Machine.KeepsSources := Machine.steady_keepsSources
  induction h with
  | idle hm => exact hm.sources
  | deed hm hd _ ih =>
    refine hsteady.trans hm.sources (hsteady.trans ?_ ih)
    cases hd with
    | opened => exact Machine.keepsSources_of_eq rfl
    | closed => exact Machine.keepsSources_of_eq rfl
    | called x _ hx => exact hit.moves_call hsteady hx _

/-- How often a stream is closed in an account. -/
def timesClosed (j : Nat) (xs : List Occurrence) : Nat := (xs.filterMap Occurrence.closed?).count j

theorem timesClosed_append (j : Nat) (xs ys : List Occurrence) :
    timesClosed j (xs ++ ys) = timesClosed j xs + timesClosed j ys := by
  rw [timesClosed, List.filterMap_append, List.count_append]
  rfl

/-- If host code leaves a stream alone, it is closed as often as the account says. -/
theorem Passes.closings (hit : it.Respects (Machine.KeepsClosing j)) (h : it.Passes xs m m') :
    ∀ {k : Nat}, m.closings[j]? = some (k, true) →
      m'.closings[j]? = some (k + timesClosed j xs, true) := by
  have hsteady : Steady (Machine.KeepsClosing j) := ⟨fun _ _ h => h, fun h h' _ hc => h' _ (h _ hc)⟩
  induction h with
  | idle hm =>
    intro k hk
    rw [hm.closings, hk]
    rfl
  | @deed d ds m m₁ m₂ m' hm hd _ ih =>
    intro k hk
    rw [← hm.closings] at hk
    cases hd with
    | @opened s =>
      refine ih ?_
      have hgrown : (m₁.addStream s).closings = m₁.closings ++ [(s.closes, s.closable)] :=
        List.map_append
      rw [hgrown, List.getElem?_append_left (List.getElem?_eq_some_iff.1 hk).1, hk]
    | called x _ hx => exact ih (hit.moves_call hsteady hx _ _ hk)
    | closed i =>
      have hcount : timesClosed j (.closed i :: ds) = (if i = j then 1 else 0) + timesClosed j ds := by
        simp [timesClosed, Occurrence.closed?, List.count_cons, Nat.add_comm]
      rw [hcount, ← Nat.add_assoc]
      refine ih ?_
      rw [Machine.closings, List.getElem?_map] at hk ⊢
      obtain ⟨s, hs, hc⟩ := Option.map_eq_some_iff.1 hk
      rw [Prod.mk.injEq] at hc
      by_cases hij : i = j
      · subst hij
        simp [Machine.updateStream, hs, Stream.close, hc.1, hc.2]
      · simp [Machine.updateStream, hs, hij, hc.1, hc.2]

/-! ### Calls -/

/-- Calls of handlers, methods and listeners, and nothing else. -/
def OnlyCalls (xs : List Occurrence) : Prop := ∀ d ∈ xs, d.isCall

theorem onlyCalls_nil : OnlyCalls [] := fun _ h => by cases h

theorem OnlyCalls.append (h : OnlyCalls xs) (h' : OnlyCalls ys) : OnlyCalls (xs ++ ys) :=
  fun d hd => (List.mem_append.1 hd).elim (h d) (h' d)

theorem OnlyCalls.called (h : OnlyCalls xs) : ∀ d ∈ xs, ∃ x, d = .called x := by
  intro d hd
  have := h d hd
  cases d with
  | called x => exact ⟨x, rfl⟩
  | _ => cases this

/-- What has an account of such calls. -/
def PassesCalls (it : Interpreter) (m m' : Machine) : Prop := ∃ xs, OnlyCalls xs ∧ it.Passes xs m m'

theorem PassesCalls.idle (h : m.Untouched m') : it.PassesCalls m m' := ⟨[], onlyCalls_nil, .idle h⟩

theorem PassesCalls.single {x : Entry} (hx : x.isCall) (m : Machine) :
    it.PassesCalls m ((x.call it).after m) := by
  have hbackground : x.inBackground := by cases x <;> first | rfl | cases hx
  refine ⟨[.called x], ?_, .single (.called x m hbackground)⟩
  intro d hd
  rwa [List.mem_singleton.1 hd]

theorem steady_passesCalls : Steady it.PassesCalls where
  refl m := .idle (Machine.steady_untouched.refl m)
  trans := by
    rintro m m' m'' ⟨xs, hxs, h⟩ ⟨ys, hys, h'⟩
    exact ⟨xs ++ ys, hxs.append hys, h.append h'⟩

/-- From its first read to the announcement of its end a load makes calls and opens and closes
nothing. -/
theorem loading_passesCalls (it : Interpreter) : it.Loading it.PassesCalls := by
  have hidle : ∀ {m m' : Machine}, m'.streams = m.streams → m'.sources = m.sources →
      it.PassesCalls m m' :=
    fun hstreams hsources => .idle (Machine.untouched_of_eq hstreams hsources)
  have htelling : it.Telling it.PassesCalls :=
    { toSteady := steady_passesCalls
      log := fun _ _ _ => hidle rfl rfl
      call := fun _ _ _ => hidle rfl rfl
      spend := fun _ _ _ => hidle rfl rfl
      listener := fun id payload m => .single (x := .listener id payload) rfl m }
  exact
    { htelling with
      deals := fun _ _ => hidle rfl rfl
      modal := fun _ _ => hidle rfl rfl
      handler := fun id args m => by
        rw [← after_dropped]
        exact .single (x := .handler id args) rfl m
      method := fun mt args m => by
        rw [← after_dropped]
        exact .single (x := .method mt args) rfl m
      answer := fun _ _ op _ args =>
        htelling.moves_answer (fun _ _ => hidle rfl rfl) (fun _ _ => hidle rfl rfl) op args
      read := fun m i s size hs => .idle (Machine.read_untouched hs size)
      wraps := fun m src => .idle ⟨rfl, Machine.keepsSources_addSource src m⟩
      total := fun m i total => .idle ⟨rfl,
        Machine.keepsSources_updateSource (fun src => { src with total }) (fun _ => rfl) m⟩
      count := fun m is n => .idle ⟨by rw [Machine.closings, Machine.streams_countRead]; rfl,
        Machine.keepsSources_countRead is n m⟩ }

/-! ### Turns -/

/-- The account of a task since it opened what it loads, and the stage that it has come to: the end
is announced among the calls, the lines are given to the callback after the stream was closed, and a
fault of loading before. -/
inductive Ledger (callback : Option String) (held : Option Nat) : List Occurrence → Stage → Prop
  | reading {xs : List Occurrence} (load : Load) : OnlyCalls xs →
      Ledger callback held xs (.reading load)
  | loaded {xs : List Occurrence} (ls : List Line) (told : Except Fault Unit) : OnlyCalls xs →
      Ledger callback held (xs ++ (Occurrence.closing held ++ Occurrence.telling callback (.ok ls)))
        (.done (told.map fun _ => some ls))
  | failed {xs : List Occurrence} (f : Fault) (told : Except Fault Unit) : OnlyCalls xs →
      Ledger callback held (xs ++ (Occurrence.telling callback (.error f) ++ Occurrence.closing held))
        (.done (told.map fun _ => none))
  | stopped {xs : List Occurrence} (f : Fault) : OnlyCalls xs →
      Ledger callback held (xs ++ Occurrence.closing held) (.done (.error f))

/-- The stream that a task has opened for itself, if it has, behind a handle of it. -/
inductive Holds (m : Machine) (origin : Origin) (h : Handle) : Option Nat → Prop
  | borrowed : origin.owned = false → Holds m origin h none
  | own {k : Nat} {src : Source} : origin.owned = true → h = .source k →
      m.sources[k]? = some src → Holds m origin h (some src.stream)

theorem Holds.kept {origin : Origin} {h : Handle} {held : Option Nat} (hh : Holds m origin h held)
    (hm : m.KeepsSources m') : Holds m' origin h held := by
  cases hh with
  | borrowed howned => exact .borrowed howned
  | own howned hk hsrc =>
    obtain ⟨src', hsrc', heq⟩ := hm _ _ hsrc
    rw [← heq]
    exact .own howned hk hsrc'

theorem passes_release {task : Task} {h : Handle} {held : Option Nat}
    (hh : Holds m task.origin h held) : it.Passes (Occurrence.closing held) m (released task h m) := by
  cases hh with
  | borrowed howned =>
    rw [released, howned]
    exact .idle (Machine.steady_untouched.refl m)
  | @own k src howned hk hsrc =>
    have hclosed : released task h m = m.updateStream src.stream Stream.close := by
      rw [released, if_pos howned, hk, Machine.closeHandle, Machine.closeSource, hsrc]
    rw [hclosed]
    exact .single (.closed src.stream m)

theorem passes_complete (it : Interpreter) (callback : Option String) (outcome : Outcome)
    (m : Machine) :
    it.Passes (Occurrence.telling callback outcome) m ((it.complete callback outcome).after m) := by
  cases callback with
  | none => exact .idle (Machine.steady_untouched.refl m)
  | some id =>
    have hentered : m.Untouched { m with journal := m.journal ++ [.callback id outcome] } :=
      Machine.untouched_of_eq rfl rfl
    exact .deed hentered (.called (.callback id outcome) _ rfl)
      (.idle (Machine.steady_untouched.refl _))

section Turns

variable {callback : Option String} {task : Task} {h : Handle} {held : Option Nat} {stage : Stage}

/-- A turn of a task whose source is open. -/
theorem runTurn_passes (task : Task) (hit : it.Respects Machine.KeepsSources)
    (hh : Holds m task.origin h held) {turn : Act Turn} (hturn : turn.Moves it.PassesCalls) :
    ∃ xs stage m', it.runTurn task h turn m = .ok stage m' ∧ it.Passes xs m m' ∧
      Ledger task.callback held xs stage := by
  have hannounced := (loading_passesCalls it).moves_announced hturn m
  rw [after] at hannounced
  cases hann : it.announced turn m with
  | ok r m₁ =>
    rw [hann] at hannounced
    obtain ⟨xs, hxs, hpasses⟩ := hannounced
    have hh₁ := hh.kept (hpasses.keepsSources hit)
    cases r with
    | waiting load => exact ⟨xs, _, m₁, runTurn_waiting hann, hpasses, .reading load hxs⟩
    | finished ls =>
      obtain ⟨told, htold, -⟩ := complete_after it task.callback (.ok ls) (released task h m₁)
      refine ⟨_, _, _, runTurn_finished hann htold,
        hpasses.append ((passes_release hh₁).append (passes_complete it task.callback (.ok ls) _)), ?_⟩
      rw [stageAfter_eq]
      exact .loaded ls _ hxs
  | error f m₁ =>
    rw [hann] at hannounced
    obtain ⟨xs, hxs, hpasses⟩ := hannounced
    have hh₁ := hh.kept (hpasses.keepsSources hit)
    by_cases hf : f.isLoad = true
    · obtain ⟨told, htold, -⟩ := complete_after it task.callback (.error f) m₁
      have hcomplete := passes_complete it task.callback (.error f) m₁
      have hh₂ := hh₁.kept (hcomplete.keepsSources hit)
      refine ⟨_, _, _, runTurn_failing hann hf htold,
        hpasses.append (hcomplete.append (passes_release hh₂)), ?_⟩
      rw [stageAfter_eq]
      exact .failed f _ hxs
    · exact ⟨_, _, _, runTurn_passing hann (by simpa using hf), hpasses.append (passes_release hh₁),
        .stopped f.leaving hxs⟩

end Turns

/-! ### Opening -/

/-- What a task opens has not been closed and can be. -/
theorem opens_fresh {origin : Origin} {v : View} (h : it.opens origin = .ok v) :
    v.stream.closes = 0 ∧ v.stream.closable = true := by
  cases origin with
  | stream _ => cases h
  | text x =>
    cases x with
    | null | text _ | bytes _ | byteArray _ => cases h; exact ⟨rfl, rfl⟩
    | _ => cases h
  | file path =>
    rw [opens] at h
    cases hpath : Path.ofLiteral path with
    | error f => rw [hpath] at h; cases h
    | ok p =>
      rw [hpath] at h
      cases hopen : it.disk.openPath p (.cannotOpen p.label p.shown) with
      | error f => simp [hopen, bind, Except.bind] at h
      | ok b =>
        simp only [hopen, bind, Except.bind, pure, Except.pure, Except.ok.injEq] at h
        rw [← h]
        exact ⟨rfl, rfl⟩

/-- A new stream gets a source of its own. -/
theorem addStreamSource_passes (it : Interpreter) {s : Stream}
    (hfresh : s.closes = 0 ∧ s.closable = true) (total name : Literal) (m : Machine) :
    ∃ k src m', addStreamSource s total name m = .ok k m' ∧
      it.Passes [.opened m.streams.length] m m' ∧ m'.sources[k]? = some src ∧
      src.stream = m.streams.length := by
  have hs : (m.addStream s).streams[m.streams.length]? = some s := List.getElem?_concat_length
  refine ⟨_, _, _, wrapStream_eq hs total name, ?_, List.getElem?_concat_length, rfl⟩
  exact (Passes.single (.opened m hfresh.1 hfresh.2)).until
    ⟨rfl, Machine.keepsSources_addSource _ _⟩

/-- A task opens a stream of its own, takes the handle that it was given, or opens nothing. -/
theorem openOrigin_passes (it : Interpreter) (task : Task) (m : Machine) :
    (∃ h m' held, it.openOrigin task.origin m = .ok h m' ∧
      it.Passes (Occurrence.opening held) m m' ∧ Holds m' task.origin h held) ∨
    ∃ f m', it.openOrigin task.origin m = .error f m' ∧ m.Untouched m' := by
  have hown : ∀ {k : Nat} {src : Source} (m₁ : Machine) {m' : Machine},
      task.origin.owned = true → m.Untouched m₁ →
      it.openOrigin task.origin m = .ok (.source k) m' →
      it.Passes [.opened m₁.streams.length] m₁ m' → m'.sources[k]? = some src →
      src.stream = m₁.streams.length → ∃ h m' held, it.openOrigin task.origin m = .ok h m' ∧
        it.Passes (Occurrence.opening held) m m' ∧ Holds m' task.origin h held := by
    intro k src m₁ m' howned hm hopen hpasses hsrc hstream
    refine ⟨_, m', some src.stream, hopen, ?_, .own howned rfl hsrc⟩
    rw [hstream]
    exact hpasses.before hm
  obtain ⟨origin, callback, stage, cancelled⟩ := task
  cases origin with
  | stream h =>
    exact .inl ⟨h, m, none, rfl, .idle (Machine.steady_untouched.refl m), .borrowed rfl⟩
  | text x =>
    rcases it.openText_cases x with ⟨s, total, name, hopens, hopen⟩ | ⟨f, hopens, hopen⟩
    · have hfresh : s.closes = 0 ∧ s.closable = true := opens_fresh hopens
      obtain ⟨k, src, m', hadd, hpasses, hsrc, hstream⟩ :=
        addStreamSource_passes it hfresh total name m
      refine .inl (hown m rfl (Machine.steady_untouched.refl m) ?_ hpasses hsrc hstream)
      rw [openOrigin, hopen, bind_ok hadd]
      rfl
    · refine .inr ⟨f, m, ?_, Machine.steady_untouched.refl m⟩
      rw [openOrigin, hopen]
      rfl
  | file path =>
    rcases it.openFile_cases path m with ⟨s, total, name, log, hopens, hopen⟩ | ⟨f, hopens, hopen⟩
    · have hfresh : s.closes = 0 ∧ s.closable = true := opens_fresh hopens
      obtain ⟨k, src, m', hadd, hpasses, hsrc, hstream⟩ :=
        addStreamSource_passes it hfresh total name { m with log }
      refine .inl (hown { m with log } rfl (Machine.untouched_of_eq rfl rfl) ?_ hpasses hsrc
        hstream)
      rw [openOrigin, bind_ok (hopen.trans hadd)]
      rfl
    · exact .inr ⟨f, m, bind_error hopen _, Machine.steady_untouched.refl m⟩

/-! ### The source of a load -/

/-- The source that a load reads, unless it is over. -/
def source? : Phase → Option Nat
  | .due load | .got load _ => some load.source
  | .ended _ => none

theorem source_of_steps {n : Nat} {p p' : Phase} (h : it.Steps n p m p' m') :
    source? p' = source? p ∨ source? p' = none := by
  induction h with
  | none => exact .inl rfl
  | more hstep _ ih =>
    cases hstep with
    | taken _ => exact ih
    | received hreceive =>
      obtain ⟨p, -, -, hingest⟩ := receive_inv hreceive
      rw [source?, source_ingest hingest] at ih
      exact ih
    | unread _ | finished _ | failed _ => exact .inr (ih.elim id id)

theorem phase_source (load : Load) : source? load.phase = some load.source := by
  rw [Load.phase]
  split <;> rfl

/-- A load reads its source as long as it lasts. -/
theorem begin_source {k : Nat} {total : Literal} {load : Load}
    (h : it.begin (.source k) total m = .ok (.waiting load) m') : load.source = k := by
  have hbegin := h
  rw [begin_eq] at hbegin
  obtain ⟨first, m₁, hprepare, -⟩ := bind_eq_ok hbegin
  have hfirst : first.source = k := by
    have hbody := call_inv (call_inv hprepare)
    obtain ⟨source, m₂, hsource, hbody⟩ := bind_eq_ok hbody
    cases hsource
    obtain ⟨_, m₃, -, hbody⟩ := bind_eq_ok hbody
    obtain ⟨_, m₄, -, hbody⟩ := bind_eq_ok hbody
    obtain ⟨_, m₅, -, hbody⟩ := bind_eq_ok hbody
    obtain ⟨_, m₆, -, hbody⟩ := bind_eq_ok hbody
    rw [get_bind] at hbody
    cases hbody
    rfl
  obtain ⟨n, p', m'', hsteps, hcomes, -⟩ := begin_steps hprepare
  rw [h] at hcomes
  cases hcomes
  rcases source_of_steps hsteps with heq | hnone
  · rw [phase_source] at heq
    exact (Option.some.inj heq).trans hfirst
  · rw [phase_source] at hnone
    cases hnone

theorem resume_source {before load : Load} (h : it.resume before m = .ok (.waiting load) m') :
    load.source = before.source := by
  rcases it.resume_steps before m with ⟨n, p', m'', hsteps, hcomes, -⟩ | ⟨left, -, hwait⟩
  · rw [h] at hcomes
    cases hcomes
    rcases source_of_steps hsteps with heq | hnone
    · rw [phase_source, phase_source] at heq
      exact Option.some.inj heq
    · rw [phase_source] at hnone
      cases hnone
  · cases hwait.symm.trans h
    rfl

/-! ### Turns of tasks -/

section Tasks

variable {task : Task} {stage : Stage} {held : Option Nat} {callback : Option String}

theorem Ledger.after_calls (hxs : OnlyCalls xs) (h : Ledger callback held ys stage) :
    Ledger callback held (xs ++ ys) stage := by
  cases h with
  | reading load hys => exact .reading load (hxs.append hys)
  | loaded ls told hys =>
    rw [← List.append_assoc]
    exact .loaded ls told (hxs.append hys)
  | failed f told hys =>
    rw [← List.append_assoc]
    exact .failed f told (hxs.append hys)
  | stopped f hys =>
    rw [← List.append_assoc]
    exact .stopped f (hxs.append hys)

/-- The account of a task up to now goes with its stage: it has done nothing yet, or it has opened
what it holds, which it still does as long as it reads. -/
inductive Balanced (m : Machine) (origin : Origin) (callback : Option String) :
    List Occurrence → Stage → Prop
  | fresh : Balanced m origin callback [] .scheduled
  | begun {held : Option Nat} {ys : List Occurrence} {stage : Stage} :
      (held.isSome → origin.owned = true) → Ledger callback held ys stage →
      (∀ load, stage = .reading load → Holds m origin (.source load.source) held) →
        Balanced m origin callback (Occurrence.opening held ++ ys) stage

theorem Balanced.kept {origin : Origin} (h : Balanced m origin callback xs stage)
    (hm : m.KeepsSources m') : Balanced m' origin callback xs stage := by
  cases h with
  | fresh => exact .fresh
  | begun howned hledger hholds =>
    exact .begun howned hledger fun load hload => (hholds load hload).kept hm

/-- A load of a text or a file that reads has opened a stream. -/
theorem Balanced.opened {origin : Origin} (h : Balanced m origin callback xs stage)
    (hreading : stage.isReading = true) (howned : origin.owned = true) : ∃ j, .opened j ∈ xs := by
  cases h with
  | fresh => cases hreading
  | begun _ _ hholds =>
    cases stage with
    | reading load =>
      cases hholds load rfl with
      | borrowed hb => cases howned.symm.trans hb
      | @own _ src _ _ _ => exact ⟨src.stream, List.mem_cons_self⟩
    | _ => cases hreading

theorem Holds.owned {origin : Origin} {h : Handle} (hh : Holds m origin h held)
    (hsome : held.isSome) : origin.owned = true := by
  cases hh with
  | borrowed _ => cases hsome
  | own howned _ _ => exact howned

/-- A turn of a task that has made calls since it opened what it holds, and holds it while it reads.
-/
theorem runTurn_balanced (task : Task) (hit : it.Respects Machine.KeepsSources)
    {h : Handle} (hh : Holds m task.origin h held) {turn : Act Turn}
    (hturn : turn.Moves it.PassesCalls)
    (hsource : ∀ k load m', h = .source k → turn m = .ok (.waiting load) m' → load.source = k)
    (hxs : OnlyCalls xs) : ∃ ys stage m', it.runTurn task h turn m = .ok stage m' ∧
      it.Passes ys m m' ∧
        Balanced m' task.origin task.callback (Occurrence.opening held ++ xs ++ ys) stage := by
  obtain ⟨ys, stage, m', hrun, hpasses, hledger⟩ := runTurn_passes task hit hh hturn
  refine ⟨ys, stage, m', hrun, hpasses, ?_⟩
  rw [List.append_assoc]
  refine .begun hh.owned (hledger.after_calls hxs) ?_
  rintro load rfl
  have hkept := hh.kept (hpasses.keepsSources hit)
  rcases runTurn_inv hrun with hdone | ⟨load', hload', hwaits⟩
  · cases hdone
  · cases hload'
    cases hkept with
    | borrowed hb => exact .borrowed hb
    | own ho hk hsrc =>
      rw [← hsource _ _ _ hk hwaits] at hsrc
      exact .own ho rfl hsrc

/-- A task that cannot open what it loads announces that and tells its callback, or it is stopped. -/
theorem startTask_failed {f : Fault} {m₁ : Machine}
    (hopen : it.openOrigin task.origin m = .error f m₁) : ∃ xs stage m',
      it.startTask task m = .ok stage m' ∧ it.Passes xs m₁ m' ∧
        Ledger task.callback none xs stage ∧ stage.isDone = true := by
  by_cases hf : f.isLoad = true
  · obtain ⟨xs, hxs, hpasses⟩ := (loading_passesCalls it).moves_announceFault f m₁
    rw [after] at hpasses
    cases hann : it.announceFault f m₁ with
    | ok _ m₂ =>
      rw [hann] at hpasses
      obtain ⟨told, htold, -⟩ := complete_after it task.callback (.error f) m₂
      have hreport : attempt (it.announceFault f >>= fun _ =>
          it.complete task.callback (.error f)) m₁ = _ :=
        (attempt_congr (bind_ok hann _)).trans htold
      refine ⟨_, _, _, startTask_failing hopen hf hreport,
        hpasses.append (passes_complete it task.callback (.error f) m₂), ?_, stageAfter_isDone _ _⟩
      have hledger : Ledger task.callback none
          (xs ++ (Occurrence.telling task.callback (.error f) ++ Occurrence.closing none))
          (.done ((told.mapError Fault.leaving).map fun _ => none)) := .failed f _ hxs
      rwa [Occurrence.closing, Option.toList_none, List.map_nil, List.append_nil,
        ← stageAfter_eq] at hledger
    | error e m₂ =>
      rw [hann] at hpasses
      have hreport : attempt (it.announceFault f >>= fun _ =>
          it.complete task.callback (.error f)) m₁ = _ := attempt_error (bind_error hann _)
      refine ⟨xs, _, m₂, startTask_failing hopen hf hreport, hpasses, ?_, rfl⟩
      have hledger : Ledger task.callback none (xs ++ Occurrence.closing none)
          (.done (.error e.leaving)) := .stopped e.leaving hxs
      rwa [Occurrence.closing, Option.toList_none, List.map_nil, List.append_nil] at hledger
  · exact ⟨[], _, m₁, startTask_passing hopen (by simpa using hf),
      .idle (Machine.steady_untouched.refl m₁), .stopped f.leaving onlyCalls_nil, rfl⟩

/-- The first turn of a task. -/
theorem startTask_balanced (hit : it.Respects Machine.KeepsSources) (task : Task) (m : Machine) :
    ∃ xs stage m', it.startTask task m = .ok stage m' ∧ it.Passes xs m m' ∧
        Balanced m' task.origin task.callback xs stage := by
  rcases openOrigin_passes it task m with ⟨h, m₁, held, hopen, hopened, hholds⟩ | ⟨f, m₁, hopen, hm⟩
  · have hsource : ∀ k load m', h = .source k →
        it.begin h .null m₁ = .ok (.waiting load) m' → load.source = k := by
      rintro k load m' rfl hbegin
      exact begin_source hbegin
    obtain ⟨xs, stage, m', hrun, hpasses, hbalanced⟩ := runTurn_balanced task hit hholds
      ((loading_passesCalls it).moves_begin (loading_passesCalls it).moves_receive h .null)
      hsource onlyCalls_nil
    rw [List.append_nil] at hbalanced
    exact ⟨_, stage, m', (startTask_opened hopen).trans hrun, hopened.append hpasses, hbalanced⟩
  · obtain ⟨xs, stage, m', hstart, hpasses, hledger, hdone⟩ := startTask_failed hopen
    refine ⟨xs, stage, m', hstart, hpasses.before hm, ?_⟩
    have hnone : Balanced m' task.origin task.callback (Occurrence.opening none ++ xs) stage := by
      refine .begun nofun hledger ?_
      rintro load rfl
      cases hdone
    exact hnone

/-- A turn of a task that has not ended goes on with its account. -/
theorem advance_balanced (task : Task) (hit : it.Respects Machine.KeepsSources)
    (hgoing : task.stage.isDone = false)
    (h : Balanced m task.origin task.callback xs task.stage) : ∃ ys stage m',
      it.advance task m = .ok stage m' ∧ it.Passes ys m m' ∧
        Balanced m' task.origin task.callback (xs ++ ys) stage := by
  obtain ⟨origin, callback, stage, cancelled⟩ := task
  cases h with
  | fresh =>
    cases cancelled with
    | false => exact startTask_balanced hit _ m
    | true =>
      refine ⟨[], _, m, rfl, .idle (Machine.steady_untouched.refl m), ?_⟩
      have hnone : Balanced m origin callback
          (Occurrence.opening none ++ ([] ++ Occurrence.closing none))
          (.done (.error .cancelled)) := .begun nofun (.stopped _ onlyCalls_nil) nofun
      exact hnone
  | @begun held zs _ howned hledger hholds =>
    cases stage with
    | scheduled => cases hledger
    | done r => cases hgoing
    | reading load =>
      have hh := hholds load rfl
      have hzs : OnlyCalls zs := by
        cases hledger with
        | reading _ hcalls => exact hcalls
      cases cancelled with
      | true =>
        refine ⟨Occurrence.closing held, .done (.error .cancelled), _,
          bind_ok (release_eq _ _ m) _, passes_release hh, ?_⟩
        rw [List.append_assoc]
        exact .begun howned (.stopped _ hzs) nofun
      | false =>
        refine runTurn_balanced ⟨origin, callback, .reading load, false⟩ hit hh
          ((loading_passesCalls it).moves_resume (loading_passesCalls it).moves_receive load)
          ?_ hzs
        rintro k load' m' ⟨⟩ hresume
        exact resume_source hresume

end Tasks

/-! ### Accounts of several turns -/

/-- A property of what has come together so far that can always be carried on is carried on by some
sequence. -/
theorem exists_account {α : Type} {P Q : Nat → List α → Prop} (hstart : P 0 [])
    (hstep : ∀ n xs, P n xs → ∃ ys, Q n ys ∧ P (n + 1) (xs ++ ys)) :
    ∃ items : Nat → List α, (∀ n, Q n (items n)) ∧ ∀ n, P n ((List.range n).flatMap items) := by
  choose next hnext hgoes using hstep
  let sofar : (n : Nat) → { xs : List α // P n xs } := fun n =>
    n.rec ⟨[], hstart⟩ fun n xs => ⟨xs.1 ++ next n xs.1 xs.2, hgoes n xs.1 xs.2⟩
  refine ⟨fun n => next n (sofar n).1 (sofar n).2, fun n => hnext n _ _, fun n => ?_⟩
  have hsofar : (List.range n).flatMap (fun n => next n (sofar n).1 (sofar n).2) =
      (sofar n).1 := by
    induction n with
    | zero => rfl
    | succ n ih => rw [List.range_succ, List.flatMap_append, List.flatMap_singleton, ih]
  rw [hsofar]
  exact (sofar n).2

section Schedules

variable {origin : Origin} {callback : Option String} {held : Option Nat} {stage : Stage}
  {i : Nat} {task : Task} {schedule : Nat → Move}

/-- What happens on the event loop leaves the sources with their streams. -/
theorem Respects.keepsSources (h : it.Respects Machine.KeepsSources) :
    it.Habits Machine.KeepsSources where
  toSteady := Machine.steady_keepsSources
  log _ _ _ := Machine.keepsSources_of_eq rfl
  deals _ _ := Machine.keepsSources_of_eq rfl
  call _ _ _ := Machine.keepsSources_of_eq rfl
  spend _ _ _ := Machine.keepsSources_of_eq rfl
  read _ _ _ _ _ := Machine.keepsSources_of_eq rfl
  close _ _ := Machine.keepsSources_of_eq rfl
  opens _ _ := Machine.keepsSources_of_eq rfl
  wraps m src := Machine.keepsSources_addSource src m
  total m _ total := Machine.keepsSources_updateSource (fun src => { src with total }) (fun _ => rfl) m
  count m is n := Machine.keepsSources_countRead is n m
  modal _ _ := Machine.keepsSources_of_eq rfl
  told _ _ _ := Machine.keepsSources_of_eq rfl
  handler := h.handler
  method := h.method
  listener := h.listener
  callback := h.callback
  answer := h.answer

theorem enterStage_keepsSources (m : Machine) (i : Nat) (stage : Stage) :
    m.KeepsSources (m.enterStage i stage) := by
  obtain ⟨queue, heq⟩ := m.enterStage_eq i stage
  rw [heq]
  exact Machine.keepsSources_of_eq rfl

theorem move_keepsSources (hit : it.Respects Machine.KeepsSources) {move : Move}
    (hmove : move.Gentle Machine.KeepsSources) : (move.act it).Moves Machine.KeepsSources :=
  hit.keepsSources.moves_move enterStage_keepsSources hmove

theorem enterStage_untouched (m : Machine) (i : Nat) (stage : Stage) :
    m.Untouched (m.enterStage i stage) := by
  obtain ⟨queue, heq⟩ := m.enterStage_eq i stage
  rw [heq]
  exact Machine.untouched_of_eq rfl rfl

/-- The account of a task up to now, which it has in a machine. -/
def BalancedAt (i : Nat) (task : Task) (m : Machine) (xs : List Occurrence) : Prop :=
  ∃ stage cancelled, m.tasks[i]? = some { task with stage, cancelled } ∧
    Balanced m task.origin task.callback xs stage

/-- Whatever happens next, the account goes on in the turns of the task only. -/
theorem move_balanced (htasks : it.Respects Machine.KeepsTasks)
    (hsources : it.Respects Machine.KeepsSources) {move : Move}
    (hmove : move.Gentle Machine.KeepsTasks) (hmove' : move.Gentle Machine.KeepsSources)
    (h : BalancedAt i task m xs) : ∃ ys,
      ((move = .turn i → it.Passes ys m ((move.act it).after m)) ∧
        (move ≠ .turn i → ys = [])) ∧
      BalancedAt i task ((move.act it).after m) (xs ++ ys) := by
  obtain ⟨stage, cancelled, htask, hbalanced⟩ := h
  by_cases hturn : move = .turn i
  · subst hturn
    cases hgoing : stage.isDone with
    | true =>
      have hafter : (Move.act it (.turn i)).after m = m := runTask_isDone htask hgoing
      refine ⟨[], ⟨fun _ => ?_, fun _ => rfl⟩, stage, cancelled, ?_⟩
      · rw [hafter]
        exact .idle (Machine.steady_untouched.refl m)
      · rw [hafter, List.append_nil]
        exact ⟨htask, hbalanced⟩
    | false =>
      obtain ⟨ys, stage', m', hadvance, hpasses, hnext⟩ :=
        advance_balanced { task with stage, cancelled } hsources hgoing hbalanced
      obtain ⟨cancelled', hkept⟩ :=
        (htasks.keepsTasks.moves_advance _).of_ok hadvance i _ htask
      have hafter : (Move.act it (.turn i)).after m = m'.enterStage i stage' := by
        rw [Move.act, after, runTask_eq htask hadvance]
      have hentered := enterStage_untouched m' i stage'
      refine ⟨ys, ⟨fun _ => ?_, fun hne => absurd rfl hne⟩, stage', cancelled', ?_⟩
      · rw [hafter]
        exact hpasses.until hentered
      · rw [hafter]
        exact ⟨enterStage_task hkept stage', hnext.kept hentered.sources⟩
  · obtain ⟨cancelled', hkept⟩ := move_task htasks hmove hturn htask
    refine ⟨[], ⟨fun h => absurd h hturn, fun _ => rfl⟩, stage, cancelled', hkept, ?_⟩
    rw [List.append_nil]
    exact hbalanced.kept (move_keepsSources hsources hmove' m)

/-! ### How often a stream is closed -/

theorem OnlyCalls.timesClosed (h : OnlyCalls xs) (j : Nat) : timesClosed j xs = 0 := by
  have hnone : xs.filterMap Occurrence.closed? = [] := by
    refine List.filterMap_eq_nil_iff.2 fun x hx => ?_
    obtain ⟨call, rfl⟩ := h.called x hx
    rfl
  rw [Interpreter.timesClosed, hnone]
  rfl

theorem timesClosed_telling (j : Nat) (callback : Option String) (outcome : Outcome) :
    timesClosed j (Occurrence.telling callback outcome) = 0 := by
  cases callback <;> rfl

theorem timesClosed_closing (j : Nat) : timesClosed j (Occurrence.closing (some j)) = 1 := by
  simp [timesClosed, Occurrence.closing, Occurrence.closed?]

/-- A task that has ended has closed what it held, once. -/
theorem Ledger.timesClosed {r : Except Fault (Option (List Line))}
    (h : Ledger callback (some j) xs (.done r)) : timesClosed j xs = 1 := by
  cases h with
  | loaded ls told hxs =>
    rw [timesClosed_append, timesClosed_append, hxs.timesClosed, timesClosed_closing,
      timesClosed_telling]
  | failed f told hxs =>
    rw [timesClosed_append, timesClosed_append, hxs.timesClosed, timesClosed_closing,
      timesClosed_telling]
  | stopped f hxs => rw [timesClosed_append, hxs.timesClosed, timesClosed_closing]

/-- After it was opened, a stream has been closed as often as the account says. -/
theorem Passes.closings_opened (hit : it.Respects (Machine.KeepsClosing j))
    (h : it.Passes (.opened j :: xs) m m') : m'.closings[j]? = some (timesClosed j xs, true) := by
  cases h with
  | @deed _ _ _ m₁ _ _ hm hd hrest =>
    cases hd with
    | @opened s _ hcloses hclosable =>
      have hgrown : (m₁.addStream s).closings[m₁.streams.length]? = some (0, true) := by
        rw [Machine.closings, List.getElem?_map]
        have hs : (m₁.addStream s).streams[m₁.streams.length]? = some s :=
          List.getElem?_concat_length
        rw [hs, Option.map_some, hcloses, hclosable]
      have hclosed := hrest.closings hit hgrown
      rwa [Nat.zero_add] at hclosed

/-- If nobody else closes the stream that a task opens, it is closed as often as the account says. -/
theorem runs_closings {account : Nat → List Occurrence}
    (hit : it.Respects (Machine.KeepsClosing j))
    (hothers : ∀ t, schedule t ≠ .turn i →
      (it.runs schedule m t).KeepsClosing j (it.runs schedule m (t + 1)))
    (hturns : ∀ t, schedule t = .turn i →
      it.Passes (account t) (it.runs schedule m t) (it.runs schedule m (t + 1)))
    (hidle : ∀ t, schedule t ≠ .turn i → account t = []) : ∀ n ys,
      (List.range n).flatMap account = .opened j :: ys →
        (it.runs schedule m n).closings[j]? = some (timesClosed j ys, true) := by
  intro n
  induction n with
  | zero => intro ys h; cases h
  | succ n ih =>
    intro ys h
    rw [List.range_succ, List.flatMap_append, List.flatMap_singleton] at h
    by_cases hturn : schedule n = .turn i
    · have hpasses := hturns n hturn
      rcases hsofar : (List.range n).flatMap account with _ | ⟨x, zs⟩
      · rw [hsofar, List.nil_append] at h
        rw [h] at hpasses
        exact hpasses.closings_opened hit
      · rw [hsofar, List.cons_append, List.cons.injEq] at h
        obtain ⟨rfl, rfl⟩ := h
        rw [timesClosed_append]
        exact hpasses.closings hit (ih zs hsofar)
    · rw [hidle n hturn, List.append_nil] at h
      exact hothers n hturn _ (ih ys h)

/-- Apart from closing what it holds a task makes calls only, once it has begun. -/
theorem Ledger.cases_mem {stage : Stage} {held : Option Nat} (h : Ledger callback held xs stage)
    {x : Occurrence} (hx : x ∈ xs) :
    (∃ call, x = .called call) ∨ ∃ j, held = some j ∧ x = .closed j := by
  have htelling : ∀ {outcome : Outcome}, x ∈ Occurrence.telling callback outcome →
      ∃ call, x = .called call := by
    intro outcome hx
    obtain ⟨id, -, rfl⟩ := List.mem_map.1 hx
    exact ⟨_, rfl⟩
  have hclosing : x ∈ Occurrence.closing held → ∃ j, held = some j ∧ x = .closed j := by
    intro hx
    obtain ⟨j, hj, rfl⟩ := List.mem_map.1 hx
    exact ⟨j, Option.mem_toList.1 hj, rfl⟩
  cases h with
  | reading load hxs => exact .inl (hxs.called x hx)
  | loaded ls told hxs =>
    rcases List.mem_append.1 hx with hx | hx
    · exact .inl (hxs.called x hx)
    · exact (List.mem_append.1 hx).elim (fun hx => .inr (hclosing hx)) fun hx => .inl (htelling hx)
  | failed f told hxs =>
    rcases List.mem_append.1 hx with hx | hx
    · exact .inl (hxs.called x hx)
    · exact (List.mem_append.1 hx).elim (fun hx => .inl (htelling hx)) fun hx => .inr (hclosing hx)
  | stopped f hxs =>
    rcases List.mem_append.1 hx with hx | hx
    · exact .inl (hxs.called x hx)
    · exact .inr (hclosing hx)

/-- A task that was handed its stream opens and closes nothing. -/
theorem Balanced.called {origin : Origin} {stage : Stage}
    (h : Balanced m origin callback xs stage) (howned : origin.owned = false) :
    ∀ x ∈ xs, ∃ call, x = .called call := by
  cases h with
  | fresh => exact fun x hx => absurd hx List.not_mem_nil
  | @begun held ys _ hheld hledger _ =>
    intro x hx
    cases held with
    | none =>
      rcases hledger.cases_mem hx with hcall | ⟨j, hj, -⟩
      · exact hcall
      · cases hj
    | some j => cases howned.symm.trans (hheld rfl)

/-- A task that has ended opened its stream before all else, and closed it once. -/
theorem Balanced.closed {origin : Origin} {stage : Stage}
    (h : Balanced m origin callback xs stage) (hdone : stage.isDone = true)
    (hopened : .opened j ∈ xs) : ∃ ys, xs = .opened j :: ys ∧ timesClosed j ys = 1 := by
  cases h with
  | fresh => cases hdone
  | @begun held ys _ _ hledger _ =>
    have hheld : held = some j := by
      rcases List.mem_append.1 hopened with hx | hx
      · obtain ⟨k, hk, hkj⟩ := List.mem_map.1 hx
        cases hkj
        exact Option.mem_toList.1 hk
      · rcases hledger.cases_mem hx with ⟨call, hcall⟩ | ⟨k, -, hk⟩
        · cases hcall
        · cases hk
    subst hheld
    obtain ⟨r, rfl⟩ := Stage.eq_done hdone
    exact ⟨ys, rfl, hledger.timesClosed⟩

end Schedules

end Interpreter

/-- A load is started in the background, on an event loop on which turns of tasks are mixed with
whatever else is done. Then its turns have an account of what is opened, closed and called in them,
which goes with the stage of the task: a load of a text or a file closes the stream that it opened,
once, when it ends, and before it gives its lines to the callback; a load of a stream opens and closes
nothing. If nobody else closes it, the stream of a load that has ended has been closed once. -/
theorem load_releases (it : Interpreter) (htasks : it.Respects Machine.KeepsTasks)
    (hsources : it.Respects Machine.KeepsSources) (hstart : it.obstacleToStart? = none)
    (origin : Origin) (callback : Option String) (m m₁ : Machine)
    (hstarted : it.schedule origin callback m = .ok () m₁) (schedule : Nat → Move)
    (hschedule : ∀ n, (schedule n).Gentle Machine.KeepsTasks ∧
      (schedule n).Gentle Machine.KeepsSources) :
    ∃ account : Nat → List Occurrence,
      (∀ n, schedule n = .turn m.tasks.length →
        it.Passes (account n) (it.runs schedule m₁ n) (it.runs schedule m₁ (n + 1))) ∧
      (∀ n, schedule n ≠ .turn m.tasks.length → account n = []) ∧
      ∀ n, ∃ stage,
        (it.runs schedule m₁ n).tasks[m.tasks.length]?.map Task.stage = some stage ∧
        Interpreter.Balanced (it.runs schedule m₁ n) origin callback
          ((List.range n).flatMap account) stage ∧
        (origin.owned = false →
          ∀ x ∈ (List.range n).flatMap account, ∃ call, x = .called call) ∧
        ∀ j, .opened j ∈ (List.range n).flatMap account → stage.isDone = true →
          it.Respects (Machine.KeepsClosing j) →
          (∀ t, schedule t ≠ .turn m.tasks.length →
            (it.runs schedule m₁ t).KeepsClosing j (it.runs schedule m₁ (t + 1))) →
          (it.runs schedule m₁ n).closings[j]? = some (1, true) := by
  obtain ⟨-, hnew⟩ := Interpreter.schedule_inv hstart hstarted
  have hfirst : m₁.tasks[m.tasks.length]? = some { origin, callback } := by
    rw [hnew]
    exact List.getElem?_concat_length
  obtain ⟨account, haccount, hbalanced⟩ := Interpreter.exists_account
    (P := fun n xs => Interpreter.BalancedAt m.tasks.length { origin, callback }
      (it.runs schedule m₁ n) xs)
    ⟨.scheduled, false, hfirst, .fresh⟩ fun n xs h =>
      Interpreter.move_balanced htasks hsources (hschedule n).1 (hschedule n).2 h
  refine ⟨account, fun n => (haccount n).1, fun n => (haccount n).2, fun n => ?_⟩
  obtain ⟨stage, cancelled, htask, hnow⟩ := hbalanced n
  refine ⟨stage, by rw [htask]; rfl, hnow, hnow.called, fun j hopened hdone hit hothers => ?_⟩
  obtain ⟨ys, hsofar, hclosed⟩ := hnow.closed hdone hopened
  rw [← hclosed]
  exact Interpreter.runs_closings hit hothers (fun t => (haccount t).1)
    (fun t => (haccount t).2) n ys hsofar

/-! ### A load that is cut short -/

/-- A load of two lines, the second of which has a handler. -/
def cutStart : Machine where
  handlers := Table.ofList [("G1", .callable "cut")]
  tasks := [{ origin := .text (.text "G0\nG1 X1"), callback := some "done" }]
  current := some 0
  queue := [0]

/-- The handler fails, and between the turns the interpreter is made to forget its modal command. The
load has opened a stream by the end of its first turn; it ends in its third turn, and the stream has
been closed once. -/
theorem load_releases_frank :
    frank.EndsWith 0 turnAbout cutStart 5 (.error .noLoop) ∧
    ∃ j : Nat, (frank.runs turnAbout cutStart 5).closings[j]? = some (1, true) := by
  have hkeeps : ∀ m : Machine, m.KeepsTasks { m with modal := "" } :=
    fun m => Machine.keepsTasks_of_eq rfl
  have hsources : ∀ m : Machine, m.KeepsSources { m with modal := "" } :=
    fun m => Machine.keepsSources_of_eq rfl
  have hclosing : ∀ j, Steady (Machine.KeepsClosing j) :=
    fun j => ⟨fun _ _ h => h, fun h h' _ hc => h' _ (h _ hc)⟩
  obtain ⟨account, -, -, h⟩ := load_releases frank
    (respects_frank Machine.steady_keepsTasks hkeeps)
    (respects_frank Machine.steady_keepsSources hsources) rfl (.text (.text "G0\nG1 X1"))
    (some "done") { handlers := Table.ofList [("G1", .callable "cut")] } cutStart rfl turnAbout
    fun n => ⟨gentle_turnAbout hkeeps n, gentle_turnAbout hsources n⟩
  have he : encodingNamed frank.encoding = .ok .utf8 := encodingNamed_standard
  have hreads : (frank.runs turnAbout cutStart 1).tasks[0]?.any (·.stage.isReading) = true := by
    simp only [Interpreter.runs, Move.act]
    unfold Interpreter.runTask Interpreter.advance Interpreter.startTask Interpreter.begin
    rw [he]
    decide +kernel
  have hends : frank.EndsWith 0 turnAbout cutStart 5 (.error .noLoop) := by
    refine Stage.map_eq_done ?_
    simp only [Interpreter.runs, Move.act]
    unfold Interpreter.runTask Interpreter.advance Interpreter.startTask Interpreter.begin
    rw [he]
    decide +kernel
  refine ⟨hends, ?_⟩
  obtain ⟨stage, hstage, hbalanced, -, -⟩ := h 1
  obtain ⟨j, hopened⟩ : ∃ j, .opened j ∈ (List.range 1).flatMap account := by
    obtain ⟨task, htask, rfl⟩ := Option.map_eq_some_iff.1 hstage
    have hreading : task.stage.isReading = true := by
      rwa [show (frank.runs turnAbout cutStart 1).tasks[0]? = some task from htask] at hreads
    exact hbalanced.opened hreading rfl
  obtain ⟨stage, hstage, -, -, hclosed⟩ := h 5
  cases hends.symm.trans hstage
  refine ⟨j, hclosed j ?_ rfl (respects_frank (hclosing j) fun _ _ h => h) fun t ht => ?_⟩
  · obtain ⟨n, hn, hj⟩ := List.mem_flatMap.1 hopened
    exact List.mem_flatMap.2 ⟨n, List.mem_range.2 (by have := List.mem_range.1 hn; omega), hj⟩
  · rw [Interpreter.runs, turnAbout_aside ht]
    exact fun _ h => h

end Gcode
