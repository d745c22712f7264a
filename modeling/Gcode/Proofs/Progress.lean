import Gcode.Proofs.Lenient
import Gcode.Proofs.ReadLoop

/-!
Progress, and how often a source is read. A load in the foreground and a load in the background have
the same turns: the first begins it and each of the others resumes it, whatever happens in between.
If the data is at hand and others leave the source alone, a load of `n` characters or bytes in
pieces of `size` reads its source `n ⌈/⌉ size + 1` times, and the `i`-th of its `n ⌈/⌉ size` notices
of progress is `min (i * size) n` of `n` (`load_progress`).
-/

namespace Gcode

open Act

namespace Interpreter

variable {it : Interpreter} {m m' : Machine} {k n i j : Nat} {h : Handle} {src : Source}
  {s : Stream} {load : Load} {callback : Option String} {between : Nat → Machine → Machine}

/-! ### The turns of a load -/

/-- What comes of the turns of a load. The first turn begins it; a later one resumes it if it waits,
on the machine that was made in between of the one that it had left. -/
def turnOf (it : Interpreter) (h : Handle) (m : Machine) (between : Nat → Machine → Machine) :
    Nat → EStateM.Result Fault Machine Turn
  | 0 => it.begin h .null m
  | j + 1 =>
    match it.turnOf h m between j with
    | .ok (.waiting load) m' => it.resume load (between j m')
    | r => r

/-- What a load has done by the end of a turn: in each of its turns it does certain items, and
nothing else that others see. -/
inductive Tally (it : Interpreter) (callback : Option String) (h : Handle) (m : Machine)
    (between : Nat → Machine → Machine) : Nat → List Item → Prop
  | begins {xs : List Item} : it.Does callback xs m ((it.begin h .null).after m) →
      Tally it callback h m between 0 xs
  | resumes {j : Nat} {load : Load} {m' : Machine} {xs ys : List Item} :
      Tally it callback h m between j xs → it.turnOf h m between j = .ok (.waiting load) m' →
        it.Does callback ys (between j m') ((it.resume load).after (between j m')) →
          Tally it callback h m between (j + 1) (xs ++ ys)
  | over {j : Nat} {xs : List Item} : Tally it callback h m between j xs →
      (∀ load m', it.turnOf h m between j ≠ .ok (.waiting load) m') →
        Tally it callback h m between (j + 1) xs

theorem turnOf_waiting (hturn : it.turnOf h m between j = .ok (.waiting load) m') :
    it.turnOf h m between (j + 1) = it.resume load (between j m') := by
  rw [turnOf, hturn]

theorem turnOf_over (hturn : ∀ load m', it.turnOf h m between j ≠ .ok (.waiting load) m') :
    it.turnOf h m between (j + 1) = it.turnOf h m between j := by
  rw [turnOf]
  split
  · rename_i load m' hwaits
    exact absurd hwaits (hturn load m')
  · rfl

/-- A load that is over stays as it is. -/
theorem turnOf_stays (hover : ∀ load m', it.turnOf h m between j ≠ .ok (.waiting load) m') :
    ∀ later, it.turnOf h m between (j + later) = it.turnOf h m between j
  | 0 => rfl
  | later + 1 => by
    have hstays := turnOf_stays hover later
    rw [← Nat.add_assoc, turnOf_over (by rwa [hstays]), hstays]

theorem Paced.over {turns : Nat} {notes : List (Nat × Literal)}
    {r : EStateM.Result Fault Machine Turn} (h : it.Paced k n turns notes r)
    (hover : ∀ load m', r ≠ .ok (.waiting load) m') : it.Paced k n (turns + 1) notes r := by
  cases h with
  | waiting => exact absurd rfl (hover _ _)
  | finished habreast hnotes => exact .finished habreast hnotes
  | failed hblamed hreads habreast hnotes => exact .failed hblamed hreads habreast hnotes

/-- Between its turns the source of a load is left alone. -/
def LeftAlone (it : Interpreter) (k : Nat) (h : Handle) (m : Machine)
    (between : Nat → Machine → Machine) : Prop :=
  ∀ j load m', it.turnOf h m between j = .ok (.waiting load) m' → m'.KeepsSource k (between j m')

/-- Every turn of a load of data at hand takes in one piece and reads the next, until it is over.
The induction is on the turns; what a turn does is `begin_paced` and `resume_paced`. -/
theorem turns_paced (hit : it.Respects (Machine.KeepsSource k)) (hsize : 0 < it.chunkSize)
    {e : Text.Encoding} (he : encodingNamed it.encoding = .ok e) (hm : it.Abreast k n 0 src s m)
    (hbetween : it.LeftAlone k (.source k) m between) (callback : Option String) (j : Nat) :
    ∃ xs, it.Tally callback (.source k) m between j xs ∧
      it.Paced k n (j + 1) (progressOf xs) (it.turnOf (.source k) m between j) := by
  induction j with
  | zero =>
    obtain ⟨hdoes, hpaced⟩ := begin_paced hsize he hm callback
    exact ⟨[], .begins hdoes, hpaced⟩
  | succ j ih =>
    obtain ⟨xs, htally, hpaced⟩ := ih
    by_cases hwaits : ∃ load m', it.turnOf (.source k) m between j = .ok (.waiting load) m'
    · obtain ⟨load, m', hturn⟩ := hwaits
      rw [hturn] at hpaced
      cases hpaced with
      | waiting hpieces hmidway hnotes =>
        cases Nat.succ.inj hpieces
        obtain ⟨ys, hdoes, hnext⟩ :=
          resume_paced hit callback hsize (hmidway.left (hbetween j load m' hturn))
        refine ⟨xs ++ ys, htally.resumes hturn hdoes, ?_⟩
        rw [turnOf_waiting hturn, progressOf_append, hnotes]
        exact hnext
    · have hover : ∀ load m', it.turnOf (.source k) m between j ≠ .ok (.waiting load) m' :=
        fun load m' hturn => hwaits ⟨load, m', hturn⟩
      refine ⟨xs, htally.over hover, ?_⟩
      rw [turnOf_over hover]
      exact hpaced.over hover

/-- Of data at hand a load takes in no more pieces than there are. -/
theorem turns_end (hit : it.Respects (Machine.KeepsSource k)) (hsize : 0 < it.chunkSize)
    {e : Text.Encoding} (he : encodingNamed it.encoding = .ok e) (hm : it.Abreast k n 0 src s m)
    (hbetween : it.LeftAlone k (.source k) m between) (hj : n ⌈/⌉ it.pieceSize < j) (load : Load)
    (m' : Machine) : it.turnOf (.source k) m between j ≠ .ok (.waiting load) m' := by
  intro hturn
  obtain ⟨xs, -, hpaced⟩ := turns_paced hit hsize he hm hbetween none j
  rw [hturn] at hpaced
  cases hpaced with
  | waiting hpieces hmidway _ =>
    have hwithin := hmidway.within
    omega

/-! ### Loads in the foreground -/

/-- A turn of a task returns, whatever host code does. -/
theorem runTask_returns (i : Nat) (m : Machine) : ∃ m', it.runTask i m = .ok () m' := by
  cases htask : m.tasks[i]? with
  | none =>
    refine ⟨m, ?_⟩
    rw [runTask, get_bind, htask]
    rfl
  | some task =>
    cases hstage : task.stage.isDone with
    | true =>
      obtain ⟨r, hdone⟩ := Stage.eq_done hstage
      exact ⟨m, runTask_done htask hdone⟩
    | false =>
      obtain ⟨_, stage, m', -, hrun, -⟩ := it.runTask_does htask hstage
      exact ⟨_, hrun⟩

theorem runTasks_returns : ∀ (is : List Nat) (m : Machine), ∃ m', it.runTasks is m = .ok () m'
  | [], m => ⟨m, rfl⟩
  | i :: is, m => by
    obtain ⟨m₁, hrun⟩ := it.runTask_returns i m
    obtain ⟨m₂, hrest⟩ := runTasks_returns is m₁
    exact ⟨m₂, (bind_ok hrun _).trans hrest⟩

theorem round_returns (m : Machine) : it.round m = .ok () (it.round.after m) := by
  obtain ⟨m', hround⟩ := it.runTasks_returns m.queue { m with queue := [] }
  have hround' : it.round m = .ok () m' := hround
  rw [after, hround']

/-- How a load in the foreground ends after as many turns as it is given: its end is announced. A
load that still waits is given up. -/
def closed (it : Interpreter) :
    EStateM.Result Fault Machine Turn → EStateM.Result Fault Machine (List Line)
  | .ok (.finished ls) m => (it.succeeded ls).leaving m
  | .ok (.waiting load) m => .ok load.lines m
  | .error f m => (it.failed f).leaving m

/-- What is between the turns of a load in the foreground: the waiting tasks have theirs. -/
def roundBetween (it : Interpreter) (_ : Nat) (m : Machine) : Machine := it.round.after m

/-- In the foreground a load goes on to its end after any of its turns. The induction is on the
turns that it is given. -/
theorem playOn_goes_on : ∀ (fuel : Nat) {j : Nat} {turn : Act Turn} {m₁ : Machine},
    turn m₁ = it.turnOf h m it.roundBetween j →
      (it.playOn fuel turn).leaving m₁ = it.closed (it.turnOf h m it.roundBetween (j + fuel)) := by
  intro fuel
  induction fuel with
  | zero =>
    intro j turn m₁ hturn
    rw [Nat.add_zero, ← hturn]
    cases hr : turn m₁ with
    | error f m' => exact leaving_congr (playOn_error 0 hr)
    | ok r m' =>
      cases r with
      | finished ls => exact leaving_congr (playOn_finished 0 hr)
      | waiting load =>
        have hgiven : it.playOn 0 turn m₁ = .ok load.lines m' := by
          rw [playOn, bind_ok (announced_waiting hr)]
          rfl
        exact leaving_ok hgiven
  | succ fuel ih =>
    intro j turn m₁ hturn
    cases hr : turn m₁ with
    | error f m' =>
      rw [turnOf_stays (by simp [← hturn, hr]), ← hturn, hr]
      exact leaving_congr (playOn_error _ hr)
    | ok r m' =>
      cases r with
      | finished ls =>
        rw [turnOf_stays (by simp [← hturn, hr]), ← hturn, hr]
        exact leaving_congr (playOn_finished _ hr)
      | waiting load =>
        have hwaits : it.playOn (fuel + 1) turn m₁ =
            it.playOn fuel (it.resume load) (it.round.after m') := by
          rw [playOn, bind_ok (announced_waiting hr), follow, bind_ok (it.round_returns m')]
          rfl
        rw [leaving_congr hwaits, ← Nat.add_assoc, Nat.add_right_comm]
        exact ih (turnOf_waiting (hturn.symm.trans hr)).symm

/-- A load in the foreground has these turns, and in between the waiting tasks have theirs. -/
theorem readStream_turns (it : Interpreter) (h : Handle) (m : Machine) (fuel : Nat) :
    it.readStream fuel h .null m = it.closed (it.turnOf h m it.roundBetween fuel) := by
  have hstart : it.begin h .null m = it.turnOf h m it.roundBetween 0 := rfl
  have hplay := playOn_goes_on fuel hstart
  rwa [Nat.zero_add] at hplay

/-! ### Loads in the background -/

/-- A task shows what came of a turn of its load: it is entered that the task waits with the load,
or the task has ended. -/
def Shows (i : Nat) (m : Machine) : EStateM.Result Fault Machine Turn → Prop
  | .ok (.waiting load) m' => m = m'.enterStage i (.reading load) ∧
      ∃ task : Task, m.tasks[i]? = some task ∧ task.stage = .reading load ∧ task.cancelled = false
  | _ => Ended i m

theorem shows_iff_ended {r : EStateM.Result Fault Machine Turn}
    (hover : ∀ load m', r ≠ .ok (.waiting load) m') : Shows i m r ↔ Ended i m := by
  cases r with
  | error f m' => exact Iff.rfl
  | ok turn m' =>
    cases turn with
    | finished ls => exact Iff.rfl
    | waiting load => exact absurd rfl (hover load m')

/-- Nothing but its turns changes a task, and these are the times of its turns. -/
structure TurnTimes (it : Interpreter) (i : Nat) (schedule : Nat → Move) (m : Machine)
    (times : Nat → Nat) : Prop where
  turns : ∀ j, schedule (times j) = .turn i
  later : ∀ j, times j < times (j + 1)
  others : ∀ n, (∀ j, n ≠ times j) →
    (it.runs schedule m n).HoldsTask i (it.runs schedule m (n + 1))
  own : ∀ task : Task, (it.advance task).Moves (Machine.HoldsTask i)

variable {schedule : Nat → Move} {times : Nat → Nat} {task : Task}

/-- Between two turns, and before the first, a task is held. -/
theorem TurnTimes.holds (ht : it.TurnTimes i schedule m times) {first last : Nat}
    (hle : first ≤ last) (hnone : ∀ n, first ≤ n → n < last → ∀ j, n ≠ times j) :
    (it.runs schedule m first).HoldsTask i (it.runs schedule m last) := by
  induction hle with
  | refl => exact (Machine.steady_holdsTask i).refl _
  | @step last hle ih =>
    exact (Machine.steady_holdsTask i).trans
      (ih fun n hn hlt => hnone n hn (Nat.lt_succ_of_lt hlt))
      (ht.others last (hnone last hle (Nat.lt_succ_self last)))

/-- A turn that is due to a task shows what came of the turn of its load. -/
theorem Due.shows {turn : Act Turn} {m₁ : Machine} (hdue : it.Due m task h turn m₁)
    (htask : m.tasks[i]? = some task)
    (hown : (it.advance task).Moves (Machine.HoldsTask i)) :
    Shows i ((it.runTask i).after m) (turn m₁) := by
  have hgoing : task.stage.isDone = false ∧ task.cancelled = false := by
    cases hdue with
    | first hstage hcancelled _ => exact ⟨by rw [hstage]; rfl, hcancelled⟩
    | later hstage hcancelled => exact ⟨by rw [hstage]; rfl, hcancelled⟩
  obtain ⟨xs, stage, m', hadvance, hrun, -⟩ := it.runTask_does htask hgoing.1
  have hentered := enterStage_task (hown.of_ok hadvance task htask) stage
  have hafter : (it.runTask i).after m = m'.enterStage i stage := by
    rw [after, hrun]
  rw [hafter]
  rcases runTurn_inv (hdue.advance_eq.symm.trans hadvance) with hdone | ⟨load, rfl, hwaits⟩
  · have hends : Ended i (m'.enterStage i stage) := ⟨_, hentered, hdone⟩
    cases hturn : turn m₁ with
    | error f m₂ => exact hends
    | ok r m₂ =>
      cases r with
      | finished ls => exact hends
      | waiting load =>
        have hstays := hdue.advance_eq.trans (runTurn_waiting (announced_waiting hturn))
        cases hstays.symm.trans hadvance
        cases hdone
  · rw [hwaits]
    exact ⟨rfl, _, hentered, rfl, hgoing.2⟩

/-- A load in the background has these turns, and in between happens what the schedule says. -/
theorem TurnTimes.shows (ht : it.TurnTimes i schedule m times) (htask : m.tasks[i]? = some task)
    (hstage : task.stage = .scheduled) (hcancelled : task.cancelled = false) {m₁ : Machine}
    (hopen : it.openOrigin task.origin (it.runs schedule m (times 0)) = .ok h m₁) (j : Nat) :
    Shows i (it.runs schedule m (times j + 1))
      (it.turnOf h m₁ (fun j _ => it.runs schedule m (times (j + 1))) j) := by
  have hmono : StrictMono times := strictMono_nat_of_lt_succ ht.later
  have hturn : ∀ j, it.runs schedule m (times j + 1) =
      (it.runTask i).after (it.runs schedule m (times j)) := by
    intro j
    rw [runs, ht.turns, Move.act]
  rw [hturn]
  induction j with
  | zero =>
    have hbefore := ht.holds (Nat.zero_le (times 0)) fun n _ hlt j hj => by
      have := hmono.monotone (Nat.zero_le j)
      omega
    have hthere := hbefore task htask
    exact (Due.first hstage hcancelled hopen).shows hthere (ht.own task)
  | succ j ih =>
    have hbefore := ht.holds (ht.later j) fun n hn hlt j' hj' => by
      have hmore := hmono.lt_iff_lt.1 (hj' ▸ hn)
      have hless := hmono.lt_iff_lt.1 (hj' ▸ hlt)
      omega
    rw [← hturn] at ih
    by_cases hwaits : ∃ load m', it.turnOf h m₁
        (fun j _ => it.runs schedule m (times (j + 1))) j = .ok (.waiting load) m'
    · obtain ⟨load, m', hwaits⟩ := hwaits
      rw [hwaits] at ih
      obtain ⟨-, task', htask', hstage', hcancelled'⟩ := ih
      rw [turnOf_waiting hwaits]
      exact (Due.later hstage' hcancelled').shows (hbefore task' htask') (ht.own task')
    · have hover : ∀ load m', it.turnOf h m₁
          (fun j _ => it.runs schedule m (times (j + 1))) j ≠ .ok (.waiting load) m' :=
        fun load m' hturn => hwaits ⟨load, m', hturn⟩
      obtain ⟨task', htask', hdone⟩ := (shows_iff_ended hover).1 ih
      have hthere := hbefore task' htask'
      rw [turnOf_over hover, runTask_isDone hthere hdone]
      exact (shows_iff_ended hover).2 ⟨task', hthere, hdone⟩

/-! ### Sources of data at hand -/

/-- The length of text or bytes. -/
def dataLength : Literal → Nat
  | .text s => s.length
  | .bytes b | .byteArray b => b.length
  | _ => 0

/-- A source was made of data of a length, in memory or in a file, and was left alone since. It
accepts reads of the size in use. -/
inductive Fresh (it : Interpreter) (k n : Nat) : Machine → Prop
  | text {x : Literal} {m m' : Machine} : dataLength x = n → Limits.isSize it.chunkSize = true →
      openText x m = .ok k m' → Fresh it k n m'
  | file {path : Literal} {d : Text.Bytes} {m m' : Machine} : it.disk.Holds path d → d.length = n →
      (Stream.ofFile d).refusal? it.chunkSize = none → it.openFile path m = .ok k m' →
        Fresh it k n m'
  | later {m m' : Machine} : Fresh it k n m → m.KeepsSource k m' → Fresh it k n m'

/-- The source that is made of a new stream with data at hand. -/
def sourceOver (s : Stream) (n : Nat) (name : Literal) (m : Machine) : Source :=
  { stream := m.streams.length, total := .int n, name := Source.nameFor name s.label s.typeName }

theorem addStreamSource_abreast {name : Literal} (hmedium : s.medium ≠ .reader)
    (haccepts : s.refusal? it.chunkSize = none) (hleft : s.left = n) (hreads : s.reads = 0)
    (h : addStreamSource s (.int n) name m = .ok k m') :
    it.Abreast k n 0 (sourceOver s n name m) s m' := by
  have hs : (m.addStream s).streams[m.streams.length]? = some s := List.getElem?_concat_length
  cases (wrapStream_eq hs (.int n) name).symm.trans h
  exact
    { there := Machine.Reads.addSource hs
      inner := rfl
      consumed := by rw [Nat.zero_mul, Nat.zero_min]; rfl
      total := rfl
      ready := ⟨hmedium, haccepts, by rw [hleft, Nat.zero_mul, Nat.sub_zero], hreads⟩ }

/-- A stream in memory refuses no read of a proper size. -/
theorem refusal?_memory (hmedium : s.medium = .textMemory ∨ s.medium = .byteMemory)
    (hcloses : s.closes = 0) {size : Int} (hsize : Limits.isSize size = true) :
    s.refusal? size = none := by
  rw [Stream.refusal?]
  rcases hmedium with hmedium | hmedium <;> simp [hmedium, hcloses, hsize]

/-- Nothing has been read of a fresh source. -/
theorem Fresh.abreast (h : it.Fresh k n m) : ∃ src s, it.Abreast k n 0 src s m := by
  induction h with
  | @text x m m' hlength hsize hopen =>
    have htext : ∀ cs : List Char, (Stream.ofText cs).refusal? it.chunkSize = none :=
      fun _ => refusal?_memory (.inl rfl) rfl hsize
    have hbytes : ∀ b : Text.Bytes, (Stream.ofBytes b).refusal? it.chunkSize = none :=
      fun _ => refusal?_memory (.inr rfl) rfl hsize
    subst hlength
    cases x with
    | null => exact ⟨_, _, addStreamSource_abreast (fun h => by cases h) (htext []) rfl rfl hopen⟩
    | text cs =>
      exact ⟨_, _, addStreamSource_abreast (fun h => by cases h) (htext cs.toList)
        String.length_toList rfl hopen⟩
    | bytes b | byteArray b =>
      exact ⟨_, _, addStreamSource_abreast (fun h => by cases h) (hbytes b) rfl rfl hopen⟩
    | _ => cases hopen
  | @file path d m m' hd hlength haccepts hopen =>
    obtain ⟨name, log, hadds⟩ := openFile_adds hd m
    subst hlength
    exact ⟨_, _, addStreamSource_abreast (fun h => by cases h) haccepts rfl rfl
      (hadds.symm.trans hopen)⟩
  | later _ hkeeps ih =>
    obtain ⟨src, s, habreast⟩ := ih
    exact ⟨src, s, habreast.left hkeeps⟩

end Interpreter

/-- Three characters are asked for in a read, and the listeners forget the modal command. -/
def measured : Interpreter where
  chunkSize := 3
  host := { Host.silent with listener := fun _ _ => Interpreter.reset }

/-- A text waits to be loaded in the background. -/
def measuredTasks : Machine where
  registry := { progress := [⟨0, "gauge", false⟩] }
  tasks := [{ origin := .text (.text "G1 X1\nG2"), callback := none }]

/-- The text is open. -/
def measuredStart : Machine :=
  { measuredTasks with
    streams := [Stream.ofText "G1 X1\nG2".toList]
    sources := [{ stream := 0, total := .int 8, name := .text "<string>" }] }

/-- What happens between the turns of the load. -/
def resetBetween (_ : Nat) (m : Machine) : Machine := { m with modal := "" }

/-- A reader that gives too little, fails, and gives something else. -/
def glitchy : Machine where
  streams := [{ supply := .chunks [.data (.text "G1"), .raises (.raised .load "jam" none),
      .data (.int 1)] none,
                typeName := "Reader" }]
  sources := [{ stream := 0, name := .text "Reader" }]

theorem measured_respects {R : Machine → Machine → Prop} (hR : Steady R)
    (hmodal : ∀ m, R m { m with modal := "" }) : measured.Respects R where
  handler _ _ := hR.nothing _
  method _ _ := hR.nothing _
  listener _ _ := hmodal
  callback _ _ := hR.nothing _
  answer code name op hop := by
    have hnone : measured.dialect.attribute? code = none := rfl
    rw [hnone] at hop
    cases hop

theorem measured_turnTimes : measured.TurnTimes 0 (fun _ => .turn 0) measuredTasks id where
  turns _ := rfl
  later j := Nat.lt_succ_self j
  others n hn := absurd rfl (hn n)
  own task := by
    have hleaves : measured.Respects (Machine.LeavesAlone 0) :=
      measured_respects (Machine.steady_leavesAlone 0) fun _ =>
        Machine.leavesAlone_of_eq rfl rfl rfl rfl
    exact hleaves.holdsTask.moves_advance task

/-- The load after its first read. -/
def measuredLoad : Load where
  source := 0
  reader := { strict := false }
  decoder := { encoding := .utf8 }
  wait := .taken (.text "G1 ")

theorem begin_measured : measured.begin (.source 0) .null measuredStart =
    .ok (.waiting measuredLoad) { measuredStart with
      streams := [{ supply := .text "X1\nG2".toList, typeName := "StringIO", reads := 1 }]
      log := [⟨.debug, .loading, "Loading G-code from <string>"⟩] } := by
  have he : encodingNamed measured.encoding = .ok .utf8 := encodingNamed_standard
  unfold Interpreter.begin Interpreter.proceed
  rw [he]
  rfl

/-- The lines of a load that is over. -/
def linesLoaded : EStateM.Result Fault Machine Turn → Option (List Line)
  | .ok (.finished ls) _ => some ls
  | _ => none

theorem eq_finished_of_linesLoaded {r : EStateM.Result Fault Machine Turn} {ls : List Line}
    (h : linesLoaded r = some ls) : ∃ m', r = .ok (.finished ls) m' := by
  cases r with
  | error f m' => cases h
  | ok turn m' =>
    cases turn with
    | waiting load => cases h
    | finished ls' =>
      cases h
      exact ⟨m', rfl⟩

/-- The two lines of the text. -/
def measuredLines : List Line :=
  [⟨"G1 X1", [⟨"G", .int 1⟩, ⟨"X", .int 1⟩], none, none, some 1, none⟩,
   ⟨"G2", [⟨"G", .int 2⟩], none, none, some 2, none⟩]

theorem turnOf_measured :
    linesLoaded (measured.turnOf (.source 0) measuredStart resetBetween 4) =
      some measuredLines := by
  simp only [Interpreter.turnOf, begin_measured]
  decide +kernel

/-- The reader after its first read. -/
def glitchyAfter (rest : List Chunk) (reads closes : Nat) : Machine where
  streams := [{ supply := .chunks rest none, typeName := "Reader", reads, closes }]
  sources := [{ stream := 0, name := .text "Reader", consumed := 2 }]

/-- What its reads give: data, a fault of the reader, a fault over data that is neither text nor
bytes, and a fault after the source was closed. -/
theorem glitchy_handled : glitchy.Handled 0
    [.ok (.text "G1".toList), .error (.readFailed "Reader" (.raised .load "jam" none)),
      .error (.wrongData "Reader" "int"), .error (.readFailed "Reader" (.closed .reader))]
    (glitchyAfter [] 4 1) := by
  have hends : Interpreter.EndsRead 0 (Interpreter.readSource 0 (.int 3)) := .atOnce _
  have hgave : glitchy.Handled 0 [.ok (.text "G1".toList)]
      (glitchyAfter [.raises (.raised .load "jam" none), .data (.int 1)] 1 0) :=
    .gave .nothing hends rfl rfl
  have hjammed : glitchy.Handled 0 ([.ok (.text "G1".toList)] ++
      [.error (.readFailed "Reader" (.raised .load "jam" none))])
      (glitchyAfter [.data (.int 1)] 2 0) := hgave.failed hends rfl rfl
  have hwrong := hjammed.failed hends rfl
    (show _ = EStateM.Result.error (.wrongData "Reader" "int") (glitchyAfter [] 3 0) from rfl)
  have hshut : (glitchyAfter [] 3 0).closeSource 0 = glitchyAfter [] 3 1 := rfl
  exact (hshut ▸ hwrong.closed).failed hends rfl rfl

/-- Someone listens to the progress. -/
def watched : Machine where
  registry := { progress := [⟨0, "gauge", false⟩] }

/-- The listeners take from the streams what is left. -/
def grasping : Interpreter where
  chunkSize := 3
  host := { Host.silent with listener := fun _ _ => modify fun m =>
    { m with streams := m.streams.map fun s => { s with supply := .text [] } } }

/-- Opens a text and loads it in the foreground. -/
def loadOpened (it : Interpreter) (fuel : Nat) (text : String) : Act (List Line) := do
  let i ← Interpreter.openText (.text text)
  it.readStream fuel (.source i) .null

/-- How often host code was called, and how often each stream was read. -/
def tallies (m : Machine) : Nat × List Nat := (m.journal.length, m.streams.map (·.reads))

end Gcode
