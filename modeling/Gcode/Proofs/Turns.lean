import Gcode.Interpreter.Tasks
import Gcode.Proofs.Sources

/-!
Loading straight through. A load in the foreground gives up its turn at every read and is resumed
later. If no other task waits, and if host code is contained, the turns make no difference: the load
does what it does when it reads its source again and again without a break (`drain`) and announces
the end once (`concluded`).
-/

namespace Gcode

open Act
open Gcode.Text

/-- A source with the total that a load is given; without one it keeps its own. -/
def Source.withTotal (src : Source) : Literal → Source
  | .null => src
  | total => { src with total }

theorem Source.withTotal_inner (src : Source) (total : Literal) :
    (src.withTotal total).inner = src.inner := by
  cases total <;> rfl

theorem Source.withTotal_consumed (src : Source) (total : Literal) :
    (src.withTotal total).consumed = src.consumed := by
  cases total <;> rfl

/-- How many turns pass for one read of a stream. -/
def Stream.turnsPerRead (s : Stream) : Nat :=
  match s.waits with
  | none => 1
  | some w => w

namespace Interpreter

variable {it : Interpreter}

/-- Reads a source to its end without giving up a turn, a number of times at most. -/
def drain (it : Interpreter) : (reads : Nat) → Load → Act (List Line)
  | 0, load => pure load.lines
  | reads + 1, load => do
    let data ← take load.source it.chunkSize
    match ← it.receive load data with
    | .inl load => it.drain reads load
    | .inr lines => pure lines

/-- What comes after the data of a read: further reads, or nothing. -/
def drainRest (it : Interpreter) (reads : Nat) : Load ⊕ List Line → Act (List Line)
  | .inl load => it.drain reads load
  | .inr lines => pure lines

/-- Ends a load with a fault, which is announced if it is one of loading. -/
def failed {α : Type} (it : Interpreter) (f : Fault) : Act α := do
  if f.isLoad then it.announceFault f
  throw f

/-- Ends a load with its lines, which are announced. -/
def succeeded (it : Interpreter) (lines : List Line) : Act (List Line) := do
  logLoaded lines.length
  let _ ← it.emit .ended [.results lines]
  pure lines

/-- Carries out a load and announces how it ends. -/
def concluded (it : Interpreter) (load : Act (List Line)) : Act (List Line) := do
  match ← load.attempt with
  | .error f => it.failed f
  | .ok lines => it.succeeded lines

/-- Gives a load a turn, and further turns until it ends. -/
def playOn (it : Interpreter) (fuel : Nat) (turn : Act Turn) : Act (List Line) :=
  it.announced turn >>= it.follow fuel

theorem drain_succ (reads : Nat) (load : Load) :
    it.drain (reads + 1) load =
      take load.source it.chunkSize >>= fun data =>
        it.receive load data >>= it.drainRest reads := by
  rw [drain]
  congr

/-! ### How a turn ends -/

section Ends

variable {m m' : Machine} {f : Fault} {lines : List Line} {load : Load}

theorem concluded_congr {a b : Act (List Line)} (h : a m = b m') :
    it.concluded a m = it.concluded b m' :=
  bind_congr_left (attempt_congr h) _

theorem concluded_error {a : Act (List Line)} (h : a m = .error f m') :
    it.concluded a m = it.failed f m' :=
  bind_ok (attempt_error h) _

theorem concluded_ok {a : Act (List Line)} (h : a m = .ok lines m') :
    it.concluded a m = it.succeeded lines m' :=
  bind_ok (attempt_ok h) _

theorem playOn_congr {s t : Act Turn} (fuel : Nat) (h : s m = t m') :
    it.playOn fuel s m = it.playOn fuel t m' :=
  bind_congr_left (bind_congr_left (attempt_congr h) _) _

/-- A fault never returns, so it does not matter what would come next. -/
theorem failed_bind {α β : Type} (f : Fault) (k : α → Act β) :
    (it.failed f >>= k : Act β) = it.failed f := by
  funext m
  rw [failed, failed]
  by_cases hf : f.isLoad = true
  · simp only [hf, if_true, bind_assoc]
    rfl
  · simp only [hf]
    rfl

theorem playOn_error {t : Act Turn} (fuel : Nat) (h : t m = .error f m') :
    it.playOn fuel t m = it.failed f m' := by
  have hann : it.announced t m = (it.failed f : Act Turn) m' := bind_ok (attempt_error h) _
  rw [playOn, bind_congr_left hann, failed_bind]

theorem playOn_finished {t : Act Turn} (fuel : Nat) (h : t m = .ok (.finished lines) m') :
    it.playOn fuel t m = it.succeeded lines m' := by
  have hann : it.announced t m = (it.succeeded lines >>= fun ls => pure (.finished ls)) m' := by
    rw [announced, bind_ok (attempt_ok h), succeeded]
    simp only [bind_assoc, pure_bind]
  have hdone : (fun ls => it.follow fuel (.finished ls)) = pure := by
    funext ls
    cases fuel <;> rfl
  rw [playOn, bind_congr_left hann, bind_assoc]
  simp only [pure_bind, hdone, bind_pure]

theorem round_eq (h : m.queue = []) : it.round m = .ok () m := by
  obtain ⟨⟩ := m
  cases h
  rfl

/-- A load that waits is resumed in the next turn; nothing else runs in between. -/
theorem playOn_waiting {t : Act Turn} (fuel : Nat) (h : t m = .ok (.waiting load) m')
    (hq : m'.queue = []) : it.playOn (fuel + 1) t m = it.playOn fuel (it.resume load) m' := by
  have hann : it.announced t m = .ok (.waiting load) m' := bind_ok (attempt_ok h) _
  rw [playOn, bind_ok hann, follow, bind_ok (round_eq hq)]
  rfl

end Ends

/-! ### What a read leads to -/

section Reads

variable {m m' : Machine} {load load' : Load} {data : Literal} {src : Source} {s : Stream}

theorem keepsInputs_ingest (hit : it.Contained) (load : Load) (p : Piece) :
    (it.ingest load p).KeepsInputs := by
  have hsource : (sourceAt load.source).KeepsInputs := by
    intro x
    refine keeps_get fun m => ?_
    split
    · exact keeps_pure _
    · exact keeps_throw _
  have hprogress : (it.announceProgress load.source).KeepsInputs :=
    hsource.bind fun _ => (contained_emit hit _ _).keeps.bind fun _ => (contained_pure _).keeps
  exact (contained_linesOf _).keeps.bind fun ls => (contained_deliver hit ls).keeps.bind fun _ =>
    hprogress.bind fun _ => (contained_pure _).keeps

theorem source_ingest {p : Piece} (h : it.ingest load p m = .ok load' m') :
    load'.source = load.source := by
  obtain ⟨ls, m₁, -, h⟩ := bind_eq_ok h
  obtain ⟨_, m₂, -, h⟩ := bind_eq_ok h
  obtain ⟨_, m₃, -, h⟩ := bind_eq_ok h
  cases h; rfl

/-- A load goes on only after data, which it takes in. -/
theorem receive_inv (h : it.receive load data m = .ok (.inl load') m') :
    ∃ p, Piece.ofLiteral? data = some p ∧ p.length ≠ 0 ∧
      it.ingest load p (m.countRead (m.passage load.source) p.length) = .ok load' m' := by
  obtain ⟨p, m₁, haccept, h⟩ := bind_eq_ok h
  obtain ⟨hp, rfl⟩ := accept_inv haccept
  by_cases hlen : p.length = 0
  · rw [if_pos hlen] at h
    obtain ⟨ls, m₂, -, h⟩ := bind_eq_ok h
    cases h
  · rw [if_neg hlen] at h
    obtain ⟨load₂, m₂, hingest, h⟩ := bind_eq_ok h
    cases h
    exact ⟨p, hp, hlen, hingest⟩

/-- The source has counted the data after which a load goes on, and the inputs are else the same. -/
theorem receive_inl (hit : it.Contained) (h : it.receive load data m = .ok (.inl load') m') :
    ∃ p, Piece.ofLiteral? data = some p ∧ p.length ≠ 0 ∧ load'.source = load.source ∧
      m'.inputs = (m.countRead (m.passage load.source) p.length).inputs := by
  obtain ⟨p, hp, hlen, hingest⟩ := receive_inv h
  exact ⟨p, hp, hlen, source_ingest hingest, (keepsInputs_ingest hit load p).of_ok hingest⟩

/-- What a load waits for makes no difference to the data it receives. -/
theorem receive_wait (load : Load) (w : Wait) (data : Literal) :
    it.receive { load with wait := w } data =
      it.receive load data >>= fun r => pure (r.map (fun l => { l with wait := w }) id) := by
  simp only [receive, bind_assoc]
  congr; funext p
  split
  · simp only [bind_assoc, pure_bind]; rfl
  · simp only [ingest, bind_assoc, pure_bind]; rfl

theorem drain_wait (w : Wait) : ∀ (reads : Nat) (load : Load),
    it.drain reads { load with wait := w } = it.drain reads load
  | 0, _ => rfl
  | reads + 1, load => by
    have hrest : (fun r => it.drainRest reads (r.map (fun l => { l with wait := w }) id)) =
        it.drainRest reads := by
      funext r
      cases r with
      | inl l => exact drain_wait w reads l
      | inr ls => rfl
    rw [drain_succ, drain_succ]
    simp only [receive_wait, bind_assoc, pure_bind, hrest]

/-- A load that will be carried on as `drain` does, if it is read so often, whatever is pending of
its source. -/
def RunsThrough (it : Interpreter) (reads : Nat) : Prop :=
  ∀ (m : Machine) (load : Load) (src : Source) (s : Stream) (limit fuel : Nat),
    m.Reads load.source src s → s.left < reads → m.queue = [] →
    (s.waits = some 0 → s.left < limit) → reads * s.turnsPerRead ≤ fuel →
    it.playOn fuel (it.proceed limit load) m = it.concluded (it.drain reads load) m

/-- With the data of a read, a load that runs through the rest of its source runs through. -/
theorem playOn_receive (hit : it.Contained) {reads : Nat} (hthrough : it.RunsThrough reads)
    (hm : m.Reads load.source src s) (hq : m.queue = []) {fuel : Nat}
    (hfuel : reads * s.turnsPerRead ≤ fuel) {next : Load ⊕ List Line → Act Turn}
    (hdone : ∀ ls, next (.inr ls) = pure (.finished ls))
    (hmore : ∀ p, Piece.ofLiteral? data = some p → p.length ≠ 0 → s.left < reads ∧
      ∀ l src m, m.Reads l.source src s → ∃ limit, (s.waits = some 0 → s.left < limit) ∧
        next (.inl l) m = it.proceed limit l m) :
    it.playOn fuel (it.receive load data >>= next) m =
      it.concluded (it.receive load data >>= it.drainRest reads) m := by
  cases hr : it.receive load data m with
  | error f m' =>
    rw [playOn_error fuel (bind_error hr next), concluded_error (bind_error hr _)]
  | ok r m' =>
    rw [playOn_congr fuel (bind_ok hr next), concluded_congr (bind_ok hr _)]
    cases r with
    | inr ls =>
      rw [hdone]
      exact (playOn_finished fuel rfl).trans (concluded_ok rfl).symm
    | inl l =>
      obtain ⟨p, hp, hlen, hsource, hin⟩ := receive_inl hit hr
      obtain ⟨hleft, hnext⟩ := hmore p hp hlen
      have hm' := (hm.countRead (m.passage load.source) p.length).of_inputs hin
      have hq' : m'.queue = [] := by
        rw [Machine.queue_of_inputs hin, Machine.queue_countRead, hq]
      rw [← hsource] at hm'
      obtain ⟨limit, hlimit, hnext⟩ := hnext l _ m' hm'
      rw [playOn_congr fuel hnext]
      exact hthrough m' l _ s limit fuel hm' hleft hq' hlimit hfuel

/-- A load that waits for some turns before its read is given them. -/
theorem playOn_turns (hq : m.queue = []) (fuel : Nat) : ∀ (left : Nat) (t : Act Turn) (n : Machine),
    t n = .ok (.waiting { load with wait := .turns left }) m →
    it.playOn (fuel + (left + 1)) t n =
      it.playOn fuel (it.resume { load with wait := .turns 0 }) m
  | 0, t, n, h => playOn_waiting fuel h hq
  | left + 1, t, n, h => by
    rw [← Nat.add_assoc, playOn_waiting _ h hq]
    exact playOn_turns hq fuel left _ m rfl

/-- What comes after the data of a read within a turn. -/
def proceedRest (it : Interpreter) (limit : Nat) : Load ⊕ List Line → Act Turn
  | .inl load => it.proceed limit load
  | .inr lines => pure (.finished lines)

/-- What comes after the data of a read at the start of a turn. -/
def advanceRest (it : Interpreter) : Load ⊕ List Line → Act Turn
  | .inl load => do it.proceed (← readsLeft load.source) load
  | .inr lines => pure (.finished lines)

theorem advanceWith_eq (load : Load) (data : Literal) :
    it.advanceWith load data = it.receive load data >>= it.advanceRest := by
  rw [advanceWith]
  congr

theorem resume_taken (load : Load) (data : Literal) :
    it.resume { load with wait := .taken data } =
      it.receive { load with wait := .taken data } data >>= it.advanceRest :=
  advanceWith_eq _ data

theorem resume_due (load : Load) :
    it.resume { load with wait := .turns 0 } =
      take load.source it.chunkSize >>= fun data =>
        it.receive { load with wait := .turns 0 } data >>= it.advanceRest := by
  simp only [resume, advanceWith_eq]

theorem proceed_at_once (hm : m.Reads load.source src s) (hw : s.waits = none) (limit : Nat) :
    it.proceed limit load m =
      (take load.source it.chunkSize >>= fun data =>
        pure (.waiting { load with wait := .taken data })) m := by
  rw [proceed.eq_def]
  dsimp only
  rw [bind_ok (sourceAt_eq hm.source), bind_ok (streamAt_eq hm.stream), hw]

theorem proceed_later (hm : m.Reads load.source src s) {left : Nat}
    (hw : s.waits = some (left + 1)) (limit : Nat) :
    it.proceed limit load m = .ok (.waiting { load with wait := .turns left }) m := by
  rw [proceed.eq_def]
  dsimp only
  rw [bind_ok (sourceAt_eq hm.source), bind_ok (streamAt_eq hm.stream), hw]
  rfl

theorem proceed_in_turn (hm : m.Reads load.source src s) (hw : s.waits = some 0) (limit : Nat) :
    it.proceed (limit + 1) load m =
      (take load.source it.chunkSize >>= fun data =>
        it.receive load data >>= it.proceedRest limit) m := by
  rw [proceed.eq_def]
  dsimp only
  rw [bind_ok (sourceAt_eq hm.source), bind_ok (streamAt_eq hm.stream), hw]
  congr

theorem proceed_missing (h : ∀ src s, ¬ m.Reads load.source src s) (limit : Nat) :
    it.proceed limit load m = .error .noSource m := by
  rw [proceed.eq_def]
  exact missing_eq h _

theorem proceed_due (hm : m.Reads load.source src s) (hw : s.waits = some 0) :
    it.proceed 0 load m = .ok (.waiting { load with wait := .turns 0 }) m := by
  rw [proceed.eq_def]
  dsimp only
  rw [bind_ok (sourceAt_eq hm.source), bind_ok (streamAt_eq hm.stream), hw]
  rfl

theorem advanceRest_inl (hm : m.Reads load.source src s) :
    ∃ limit, (s.waits = some 0 → s.left < limit) ∧
      it.advanceRest (.inl load) m = it.proceed limit load m := by
  have hreads : readsLeft load.source m = .ok (s.chunkCount + 1) m := by
    rw [readsLeft, bind_ok (sourceAt_eq hm.source), bind_ok (streamAt_eq hm.stream)]
    rfl
  exact ⟨s.chunkCount + 1, Stream.left_lt_chunkCount, bind_ok hreads _⟩

/-- After a read a load goes on with further reads. -/
def GoesOn (it : Interpreter) (rest : Load ⊕ List Line → Act Turn) : Prop :=
  ∀ (l : Load) (n : Machine), ∃ limit, rest (.inl l) n = it.proceed limit l n

theorem goesOn_advanceRest : it.GoesOn it.advanceRest := by
  intro l n
  by_cases h : ∃ src s, n.Reads l.source src s
  · obtain ⟨src, s, hn⟩ := h
    obtain ⟨limit, -, heq⟩ := advanceRest_inl hn
    exact ⟨limit, heq⟩
  · have hnone : ∀ src s, ¬ n.Reads l.source src s := fun src s hn => h ⟨src, s, hn⟩
    have hreads : readsLeft l.source n = .error .noSource n := missing_eq hnone _
    exact ⟨0, (bind_error hreads _).trans (proceed_missing hnone 0).symm⟩

/-- A load that has taken the data of a read runs through if it runs through the rest. -/
theorem playOn_taken (load : Load) (hit : it.Contained) {reads : Nat}
    (hthrough : it.RunsThrough reads) (hm : m.Reads load.source src s) (hq : m.queue = [])
    (hleft : s.left < reads + 1) {s' : Stream}
    (hread : s.read it.chunkSize = (.ok data, s')) {fuel : Nat}
    (hfuel : reads * s.turnsPerRead ≤ fuel) {next : Load ⊕ List Line → Act Turn}
    (hdone : ∀ ls, next (.inr ls) = pure (.finished ls))
    (hmore : s'.left < s.left → ∀ l src m, m.Reads l.source src s' →
      ∃ limit, (s'.waits = some 0 → s'.left < limit) ∧ next (.inl l) m = it.proceed limit l m) :
    it.playOn fuel (it.receive load data >>= next) (m.updateStream src.stream fun _ => s') =
      it.concluded (it.drain (reads + 1) load) m := by
  have hturns : s'.turnsPerRead = s.turnsPerRead := by
    have hwaits := Stream.read_waits s it.chunkSize
    rw [hread] at hwaits
    rw [Stream.turnsPerRead, Stream.turnsPerRead, hwaits]
  rw [drain_succ, concluded_congr (bind_ok (take_eq_ok hm hread) _)]
  refine playOn_receive hit hthrough (hm.updateStream s') hq (hturns ▸ hfuel) hdone ?_
  intro p hp hlen
  have hless := Stream.left_lt_of_read hread hp hlen
  exact ⟨by omega, hmore hless⟩

/-- A load whose read is due runs through if it runs through the rest. -/
theorem playOn_due (load : Load) (hit : it.Contained) {reads : Nat}
    (hthrough : it.RunsThrough reads) (hm : m.Reads load.source src s) (hq : m.queue = [])
    (hleft : s.left < reads + 1) {fuel : Nat}
    (hfuel : reads * s.turnsPerRead ≤ fuel) {next : Load ⊕ List Line → Act Turn}
    (hdone : ∀ ls, next (.inr ls) = pure (.finished ls))
    (hmore : ∀ s' : Stream, s'.left < s.left → ∀ l src m, m.Reads l.source src s' →
      ∃ limit, (s'.waits = some 0 → s'.left < limit) ∧ next (.inl l) m = it.proceed limit l m) :
    it.playOn fuel (take load.source it.chunkSize >>= fun data => it.receive load data >>= next) m =
      it.concluded (it.drain (reads + 1) load) m := by
  obtain ⟨got, s', hread⟩ : ∃ got s', s.read it.chunkSize = (got, s') := ⟨_, _, rfl⟩
  cases got with
  | error f =>
    have htake := take_eq_error hm hread
    rw [playOn_error _ (bind_error htake _), drain_succ, concluded_error (bind_error htake _)]
  | ok data =>
    rw [playOn_congr _ (bind_ok (take_eq_ok hm hread) _)]
    exact playOn_taken load hit hthrough hm hq hleft hread hfuel hdone (hmore s')

/-- Turn by turn a load does what it does straight through. The induction is on the number of reads:
every read with data leaves less to read. -/
theorem runsThrough (hit : it.Contained) : ∀ reads : Nat, it.RunsThrough reads
  | 0 => fun _ _ _ _ _ _ _ hleft => absurd hleft (Nat.not_lt_zero _)
  | reads + 1 => by
    intro m load src s limit fuel hm hleft hq hlimit hfuel
    have hthrough := runsThrough hit reads
    cases hw : s.waits with
    | none =>
      -- the data is taken at once and received in the next turn
      have hturns : s.turnsPerRead = 1 := by rw [Stream.turnsPerRead, hw]
      rw [hturns, Nat.mul_one] at hfuel
      obtain ⟨fuel, rfl⟩ : ∃ n, fuel = n + 1 := ⟨fuel - 1, by omega⟩
      have hrest : reads * s.turnsPerRead ≤ fuel := by rw [hturns]; omega
      rw [playOn_congr _ (proceed_at_once hm hw limit)]
      obtain ⟨got, s', hread⟩ : ∃ got s', s.read it.chunkSize = (got, s') := ⟨_, _, rfl⟩
      cases got with
      | error f =>
        have htake := take_eq_error hm hread
        rw [playOn_error _ (bind_error htake _), drain_succ, concluded_error (bind_error htake _)]
      | ok data =>
        have hwait : (take load.source it.chunkSize >>= fun data =>
            pure (Turn.waiting { load with wait := .taken data })) m =
              .ok (.waiting { load with wait := .taken data })
                (m.updateStream src.stream fun _ => s') := bind_ok (take_eq_ok hm hread) _
        rw [playOn_waiting fuel hwait hq, ← drain_wait (.taken data) (reads + 1) load, resume_taken]
        exact playOn_taken { load with wait := .taken data } hit hthrough hm hq hleft hread hrest
          (fun _ => rfl) fun _ _ _ _ hm' => advanceRest_inl hm'
    | some w =>
      have hturns : s.turnsPerRead = w := by rw [Stream.turnsPerRead, hw]
      rw [hturns, Nat.succ_mul] at hfuel
      cases w with
      | zero =>
        -- all reads are made in the same turn
        have hlim := hlimit hw
        obtain ⟨limit, rfl⟩ : ∃ n, limit = n + 1 := ⟨limit - 1, by omega⟩
        have hrest : reads * s.turnsPerRead ≤ fuel := by rw [hturns]; omega
        rw [playOn_congr _ (proceed_in_turn hm hw limit)]
        exact playOn_due load hit hthrough hm hq hleft hrest (fun _ => rfl)
          fun s' hless _ _ _ _ => ⟨limit, fun _ => by omega, rfl⟩
      | succ left =>
        -- the turns before the read pass, then the read is due
        obtain ⟨fuel, rfl⟩ : ∃ n, fuel = n + (left + 1) := ⟨fuel - (left + 1), by omega⟩
        have hrest : reads * s.turnsPerRead ≤ fuel := by rw [hturns]; omega
        rw [playOn_turns hq fuel left _ m (proceed_later hm hw limit),
          ← drain_wait (.turns 0) (reads + 1) load, resume_due]
        exact playOn_due { load with wait := .turns 0 } hit hthrough hm hq hleft hrest
          (fun _ => rfl) fun _ _ _ _ _ hm' => advanceRest_inl hm'

end Reads

/-! ### Loads -/

/-- Replaces the total of a source, if there is one to replace it. -/
def setTotal (source : Nat) : Literal → Act Unit
  | .null => pure ()
  | total => modify fun m => m.updateSource source fun s => { s with total }

/-- What is done before the first read of a load. -/
def prepare (it : Interpreter) (h : Handle) (total : Literal) : Act Load :=
  it.call .readStream <| it.call .pump do
    let source ← sourceOf h
    setTotal source total
    let encoding ← Act.ofExcept (encodingNamed it.encoding)
    let src ← sourceAt source
    Act.log .debug .loading ("Loading G-code from " ++ src.title)
    let strict := (← get).strict
    pure { source, reader := { strict }, decoder := { encoding }, wait := .turns 0 }

theorem begin_eq (h : Handle) (total : Literal) :
    it.begin h total =
      it.prepare h total >>= fun load => readsLeft load.source >>= fun n => it.proceed n load := by
  simp only [begin, prepare, call, bind_assoc]
  cases total <;> simp only [setTotal, pure_bind]

theorem setTotal_eq {m : Machine} {i : Nat} {src : Source} {s : Stream} (hm : m.Reads i src s)
    (total : Literal) :
    ∃ m', setTotal i total m = .ok () m' ∧ m'.core = m.core ∧
      m'.Reads i (src.withTotal total) s := by
  have hset : ∀ f : Source → Source, (f src).stream = src.stream →
      (m.updateSource i f).Reads i (f src) s := by
    intro f hf
    refine ⟨by simp [Machine.updateSource, hm.source], ?_⟩
    rw [hf]
    exact hm.stream
  cases total with
  | null => exact ⟨m, rfl, rfl, hm⟩
  | _ => exact ⟨_, rfl, rfl, hset (fun s => { s with total := _ }) rfl⟩

/-- A handle that stands for something can be loaded if the encoding is known. -/
theorem prepare_eq (hintact : it.Intact) {e : Encoding} (he : encodingNamed it.encoding = .ok e)
    {m : Machine} {h : Handle} {src : Source} {s : Stream} (hh : h.StandsFor m src s)
    (total : Literal) :
    ∃ i m', it.prepare h total m =
        .ok { source := i, reader := { strict := m.strict }, decoder := { encoding := e },
              wait := .turns 0 } m' ∧
      m'.core = m.core ∧ m'.Reads i (src.withTotal total) s ∧ i ∉ (src.withTotal total).inner := by
  obtain ⟨i, m₁, hsource, hcore, hm₁, hinner⟩ : ∃ i m₁, sourceOf h m = .ok i m₁ ∧
      m₁.core = m.core ∧ m₁.Reads i src s ∧ i ∉ src.inner := by
    cases hh with
    | stream h =>
      exact ⟨_, _, wrapStream_eq h .null .null, rfl, Machine.Reads.addSource h,
        List.not_mem_nil⟩
    | source h hinner => exact ⟨_, _, rfl, rfl, h, fun hi => Nat.lt_irrefl _ (hinner _ hi)⟩
  obtain ⟨m₂, htotal, hcore₂, hm₂⟩ := setTotal_eq hm₁ total
  have hstrict : m₂.strict = m.strict :=
    Machine.eq_of_core (hcore₂.trans hcore) _ fun _ => rfl
  have hnamed : Act.ofExcept (encodingNamed it.encoding) m₂ = .ok e m₂ := by rw [he]; rfl
  obtain ⟨log, hprepare⟩ : ∃ log, it.prepare h total m =
      .ok { source := i, reader := { strict := m.strict }, decoder := { encoding := e },
            wait := .turns 0 } { m₂ with log } := by
    rw [prepare, hintact.call_eq, hintact.call_eq, bind_ok hsource, bind_ok htotal, bind_ok hnamed,
      bind_ok (sourceAt_eq hm₂.source), ← hstrict]
    exact ⟨_, rfl⟩
  rw [Source.withTotal_inner]
  exact ⟨i, _, hprepare, hcore₂.trans hcore, hm₂.of_inputs rfl, hinner⟩

/-- A load in the foreground is given its turns until it ends. -/
theorem readStream_eq (fuel : Nat) (h : Handle) (total : Literal) :
    it.readStream fuel h total = (it.playOn fuel (it.begin h total)).leaving := rfl

/-- A load in the foreground that could be prepared does what it does straight through, given turns
enough. -/
theorem readStream_eq_concluded (hit : it.Contained) {h : Handle} {total : Literal}
    {m m' : Machine} {load : Load} {src : Source} {s : Stream}
    (hprepare : it.prepare h total m = .ok load m') (hm : m'.Reads load.source src s)
    (hq : m'.queue = []) {reads fuel : Nat} (hreads : s.left < reads)
    (hfuel : reads * s.turnsPerRead ≤ fuel) :
    it.readStream fuel h total m = (it.concluded (it.drain reads load)).leaving m' := by
  obtain ⟨limit, hlimit, hrest⟩ : ∃ limit, (s.waits = some 0 → s.left < limit) ∧
      it.advanceRest (.inl load) m' = it.proceed limit load m' := advanceRest_inl hm
  have hbegin : it.begin h total m = it.proceed limit load m' := by
    rw [begin_eq, bind_ok hprepare]
    exact hrest
  exact leaving_congr ((playOn_congr fuel hbegin).trans
    (runsThrough hit reads m' load src s limit fuel hm hreads hq hlimit hfuel))

end Interpreter

end Gcode
