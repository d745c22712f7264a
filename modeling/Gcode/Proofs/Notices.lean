import Gcode.Proofs.Pieces
import Gcode.Proofs.Turns

/-!
The notices of a load. They are given by the pieces that the reads of a source give, apart from any
reader: a piece completes the lines that are complete in the text up to it and were not before, and
after them the progress is announced; the end of the document completes the rest. Main statement: a
load that reads these pieces, from text without faults, shows what giving these notices and carrying
out their lines shows (`seen_drain`).
-/

namespace Gcode

open Gcode.Text

/-! ### Documents in pieces -/

theorem encodingNamed_known {name : String} {e : Encoding} (hnul : Char.ofNat 0 ∉ name.toList)
    (he : Encoding.ofName? name = some e) : encodingNamed name = .ok e := by
  rw [encodingNamed, String.contains_char_eq, decide_eq_false hnul, he]
  rfl

theorem encodingNamed_unknown {name : String} (hnul : Char.ofNat 0 ∉ name.toList)
    (he : Encoding.ofName? name = none) : encodingNamed name = .error (.unknownEncoding name) := by
  rw [encodingNamed, String.contains_char_eq, decide_eq_false hnul, he]
  rfl

theorem encodingNamed_standard : encodingNamed "utf-8" = .ok .utf8 :=
  encodingNamed_known (by decide +kernel) (by decide +kernel)

/-- The text of a document whose pieces are still to be decoded. -/
def documentOf (d : Decoder) : List Piece → List Char
  | [] => d.finish
  | p :: ps => (p.decode d).1 ++ documentOf (p.decode d).2 ps

/-- How many lines of a text are complete. -/
def completeCount (s : List Char) : Nat := (cutLines s).1.length

/-- The lines that a reading gives, none if it fails. -/
def Reading.found (r : Reading) : List Line :=
  match r.lines with
  | .ok ls => ls
  | .error _ => []

/-- The lines that a text completes, given the text before it. -/
def linesCompleted (strict : Bool) (before text : List Char) : List Line :=
  (Reading.ofLines strict (completeCount before)
    ((cutLines (before ++ text)).1.drop (completeCount before))).found

/-- The reading of all lines that are not complete, if a document ends with a text. -/
def readingOfRest (strict : Bool) (before text : List Char) : Reading :=
  Reading.ofLines strict (completeCount before)
    ((physicalLines (before ++ text)).drop (completeCount before))

/-- What a load gives notice of: a line, the progress, or its end. -/
inductive Notice where
  | line (l : Line)
  | progress (consumed : Nat) (total : Literal)
  | ended (ls : List Line)

/-- The line that a notice is about. -/
def Notice.line? : Notice → Option Line
  | .line l => some l
  | _ => none

/-- The notices of a load up to its end. `before` is the text that came so far, `consumed` its
length in the source. -/
def noticesFrom (strict : Bool) (total : Literal) (before : List Char) (d : Decoder)
    (consumed : Nat) : List Piece → List Notice
  | [] => (readingOfRest strict before d.finish).found.map .line
  | p :: ps =>
    (linesCompleted strict before (p.decode d).1).map .line ++
      .progress (consumed + p.length) total ::
        noticesFrom strict total (before ++ (p.decode d).1) (p.decode d).2 (consumed + p.length) ps

/-- The reader after some text without faults. -/
def LineReader.reached (strict : Bool) (before : List Char) : LineReader :=
  ⟨strict, completeCount before, (cutLines before).2⟩

theorem LineReader.reached_nil (strict : Bool) : reached strict [] = { strict } := rfl

/-- Before the first text everything is left. -/
theorem readingOfRest_nil (strict : Bool) (text : List Char) :
    readingOfRest strict [] text = (LineReader.program { strict } text).1 :=
  (LineReader.program_reading strict text).symm

/-! ### What is complete and what is not -/

theorem drop_cutLines (before text : List Char) :
    (cutLines (before ++ text)).1.drop (completeCount before) =
      (cutLines ((cutLines before).2 ++ text)).1 := by
  rw [cutLines_append, completeCount, List.drop_left]

theorem drop_physicalLines (before text : List Char) :
    (physicalLines (before ++ text)).drop (completeCount before) =
      physicalLines ((cutLines before).2 ++ text) := by
  rw [physicalLines_append, completeCount, List.drop_left]

theorem pending_append (before text : List Char) :
    (cutLines (before ++ text)).2 = (cutLines ((cutLines before).2 ++ text)).2 := by
  rw [cutLines_append]

theorem completeCount_append (before text : List Char) :
    completeCount (before ++ text) =
      completeCount before + (cutLines ((cutLines before).2 ++ text)).1.length := by
  rw [completeCount, cutLines_append, List.length_append, completeCount]

/-- A reader that takes a text without a fault gives what the text completes. -/
theorem LineReader.feed_reached {strict : Bool} {before text : List Char} {now : List Line}
    (h : (feed (.reached strict before) text).1.lines = .ok now) :
    linesCompleted strict before text = now ∧
      (feed (.reached strict before) text).2 = .reached strict (before ++ text) := by
  have hnow : (Reading.ofLines strict (completeCount before)
      (cutLines ((cutLines before).2 ++ text)).1).lines = .ok now := h
  refine ⟨by rw [linesCompleted, drop_cutLines, Reading.found, hnow], ?_⟩
  rw [feed_reader]
  simp only [reached, completeCount_append, mk.injEq, true_and]
  exact ⟨Reading.count_ofLines strict _ hnow, (pending_append before text).symm⟩

/-- The rest of a document is read as what a piece completes and what is left then. -/
theorem readingOfRest_append (strict : Bool) (before text more : List Char) :
    (readingOfRest strict before (text ++ more)).lines =
      (LineReader.feed (.reached strict before) text).1.lines.bind fun now =>
        (readingOfRest strict (before ++ text) more).lines.map (now ++ ·) := by
  rw [readingOfRest, ← List.append_assoc, List.append_assoc, drop_physicalLines,
    ← List.append_assoc, physicalLines_append, Reading.lines_append, readingOfRest,
    drop_physicalLines, completeCount_append, pending_append before text]
  rfl

/-- The end of a document is read in two steps: the lines of the last text, and the last. -/
theorem readingOfRest_finish (strict : Bool) (before text : List Char) :
    (readingOfRest strict before text).lines =
      (LineReader.feed (.reached strict before) text).1.lines.bind fun completed =>
        (LineReader.feed (.reached strict before) text).2.flush.1.lines.map (completed ++ ·) := by
  have hfeed : (LineReader.feed (.reached strict before) text).1 =
      Reading.ofLines strict (completeCount before)
        (cutLines ((cutLines before).2 ++ text)).1 := rfl
  rw [readingOfRest, drop_physicalLines, ← completed_append_lastLine, Reading.lines_append,
    LineReader.flush_reading, LineReader.feed_reader, hfeed]
  cases hcompleted : (Reading.ofLines strict (completeCount before)
      (cutLines ((cutLines before).2 ++ text)).1).lines with
  | error f => rfl
  | ok completed => simp only [LineReader.reached, Reading.count_ofLines strict _ hcompleted]

/-- The rest of a document is what a piece completes and what is left then. -/
theorem rest_append {strict : Bool} {before text more : List Char} {ls : List Line}
    (h : (readingOfRest strict before (text ++ more)).lines = .ok ls) :
    ∃ rest, ls = linesCompleted strict before text ++ rest ∧
      (LineReader.feed (.reached strict before) text).1.lines =
        .ok (linesCompleted strict before text) ∧
      (LineReader.feed (.reached strict before) text).2 = .reached strict (before ++ text) ∧
      (readingOfRest strict (before ++ text) more).lines = .ok rest := by
  rw [readingOfRest_append] at h
  cases hnow : (LineReader.feed (.reached strict before) text).1.lines with
  | error f => rw [hnow] at h; cases h
  | ok now =>
    obtain ⟨hdone, hreached⟩ := LineReader.feed_reached hnow
    rw [hnow] at h
    cases hrest : (readingOfRest strict (before ++ text) more).lines with
    | error f => rw [hrest] at h; cases h
    | ok rest =>
      rw [hrest] at h
      cases h
      rw [hdone]
      exact ⟨rest, rfl, rfl, hreached, rfl⟩

/-- The end of a document completes lines in two steps: those of the last text, and the last. -/
theorem rest_finish {strict : Bool} {before text : List Char} {ls : List Line}
    (h : (readingOfRest strict before text).lines = .ok ls) :
    ∃ completed last, ls = completed ++ last ∧
      (LineReader.feed (.reached strict before) text).1.lines = .ok completed ∧
      (LineReader.feed (.reached strict before) text).2.flush.1.lines = .ok last := by
  rw [readingOfRest_finish] at h
  cases hcompleted : (LineReader.feed (.reached strict before) text).1.lines with
  | error f => rw [hcompleted] at h; cases h
  | ok completed =>
    rw [hcompleted] at h
    cases hlast : (LineReader.feed (.reached strict before) text).2.flush.1.lines with
    | error f => rw [hlast] at h; cases h
    | ok last =>
      rw [hlast] at h
      cases h
      exact ⟨completed, last, rfl, rfl, rfl⟩

/-- The notices are about the lines of the rest of the document. -/
theorem lines_noticesFrom {strict : Bool} {total : Literal} : ∀ {ps : List Piece}
    {before : List Char} {d : Decoder} {consumed : Nat} {ls : List Line},
    (readingOfRest strict before (documentOf d ps)).lines = .ok ls →
    (noticesFrom strict total before d consumed ps).filterMap Notice.line? = ls
  | [], before, d, consumed, ls, h => by
    have hfound : (readingOfRest strict before d.finish).found = ls := by
      rw [Reading.found]; rw [documentOf] at h; rw [h]
    rw [noticesFrom, hfound, List.filterMap_map]
    exact List.filterMap_some
  | p :: ps, before, d, consumed, ls, h => by
    obtain ⟨rest, rfl, -, -, hrest⟩ := rest_append h
    rw [noticesFrom, List.filterMap_append, List.filterMap_map]
    show List.filterMap some _ ++ _ = _
    rw [List.filterMap_some, List.filterMap_cons, lines_noticesFrom hrest]
    rfl

/-! ### Giving notices -/

namespace Interpreter

open Act

variable {it : Interpreter}

/-- Gives a notice. A line is also carried out. -/
def give (it : Interpreter) : Notice → Act Unit
  | .line l => it.deliver [l]
  | .progress consumed total => do let _ ← it.emit .progress [.progress consumed total]
  | .ended ls => do let _ ← it.emit .ended [.results ls]

/-- Gives notices in order. -/
def giveAll (it : Interpreter) : List Notice → Act Unit
  | [] => pure ()
  | n :: ns => do
    it.give n
    it.giveAll ns

theorem giveAll_append (ns ns' : List Notice) :
    it.giveAll (ns ++ ns') = it.giveAll ns >>= fun _ => it.giveAll ns' := by
  induction ns with
  | nil => exact (pure_bind _ _).symm
  | cons n ns ih => rw [List.cons_append, giveAll, giveAll, ih, bind_assoc]

theorem giveAll_lines (ls : List Line) : it.giveAll (ls.map .line) = it.deliver ls := by
  induction ls with
  | nil => rfl
  | cons l ls ih =>
    rw [List.map_cons, giveAll, ih, give, deliver, deliver, deliver, bind_assoc]
    simp only [pure_bind]

theorem deliver_append (ls ls' : List Line) :
    it.deliver (ls ++ ls') = it.deliver ls >>= fun _ => it.deliver ls' := by
  rw [← giveAll_lines, List.map_append, giveAll_append, giveAll_lines, giveAll_lines]

theorem contained_give (hit : it.Contained) (n : Notice) : (it.give n).Contained := by
  cases n with
  | line l => exact contained_deliver hit [l]
  | progress consumed total => exact (contained_emit hit _ _).bind fun _ => contained_pure _
  | ended ls => exact (contained_emit hit _ _).bind fun _ => contained_pure _

theorem contained_giveAll (hit : it.Contained) : ∀ ns : List Notice, (it.giveAll ns).Contained
  | [] => contained_pure _
  | n :: ns => (contained_give hit n).bind fun _ => contained_giveAll hit ns

/-! ### From reads to notices -/

/-- The machine after warnings. -/
theorem linesOf_eq_ok {r : Reading} {ls : List Line} (h : r.lines = .ok ls) (m : Machine) :
    ∃ log, linesOf r m = .ok ls { m with log } := by
  rw [linesOf, h]
  exact ⟨_, rfl⟩

/-- A piece of a document is taken in step by step. -/
theorem ingest_eq (it : Interpreter) (load : Load) (p : Piece) :
    it.ingest load p =
      linesOf (load.reader.feed (p.decode load.decoder).1).1 >>= fun ls =>
        it.deliver ls >>= fun _ => it.announceProgress load.source >>= fun _ =>
          pure { load with
            decoder := (p.decode load.decoder).2
            reader := (load.reader.feed (p.decode load.decoder).1).2
            lines := load.lines ++ ls } := rfl

/-- The end of a document is taken in step by step. -/
theorem finish_eq (it : Interpreter) (load : Load) :
    it.finish load =
      linesOf (load.reader.feed load.decoder.finish).1 >>= fun completed =>
        it.deliver completed >>= fun _ =>
          linesOf (load.reader.feed load.decoder.finish).2.flush.1 >>= fun last =>
            it.deliver last >>= fun _ => pure (load.lines ++ completed ++ last) := rfl

/-- The end of a document shows what delivering its last lines shows. -/
theorem seen_finish (hit : it.Contained) {load : Load} {m : Machine} {strict : Bool}
    {before : List Char} {ls : List Line} (hreader : load.reader = .reached strict before)
    (h : (readingOfRest strict before load.decoder.finish).lines = .ok ls) :
    (it.finish load).seen m = (it.deliver ls >>= fun _ => pure (load.lines ++ ls)).seen m := by
  obtain ⟨completed, last, rfl, hcompleted, hlast⟩ := rest_finish h
  rw [← hreader] at hcompleted hlast
  obtain ⟨log, hlines⟩ := linesOf_eq_ok hcompleted m
  rw [finish_eq, seen_bind_ok hlines, deliver_append, bind_assoc]
  refine seen_bind ((contained_deliver hit completed).seen_eq rfl) fun _ m' n' _ _ hcore => ?_
  obtain ⟨log', hlines'⟩ := linesOf_eq_ok hlast m'
  rw [seen_bind_ok hlines', List.append_assoc]
  exact ((contained_deliver hit last).bind fun _ => contained_pure _).seen_eq hcore

theorem announceProgress_eq {m : Machine} {i : Nat} {src : Source} (h : m.sources[i]? = some src) :
    it.announceProgress i m = it.give (.progress src.consumed src.total) m := by
  rw [announceProgress, bind_ok (sourceAt_eq h)]
  rfl

/-- A piece shows what delivering its lines and announcing the progress shows. -/
theorem seen_ingest (hit : it.Contained) {load : Load} {p : Piece} {now : List Line}
    {reader : LineReader} (hnow : (load.reader.feed (p.decode load.decoder).1).1.lines = .ok now)
    (hreader : (load.reader.feed (p.decode load.decoder).1).2 = reader) {m : Machine} {src : Source}
    {s : Stream} (hm : m.Reads load.source src s) :
    (it.ingest load p).seen m =
      (it.deliver now >>= fun _ => it.give (.progress src.consumed src.total) >>= fun _ =>
        pure { load with decoder := (p.decode load.decoder).2, reader,
                         lines := load.lines ++ now }).seen m := by
  obtain ⟨log, hlines⟩ := linesOf_eq_ok hnow m
  rw [ingest_eq, seen_bind_ok hlines, hreader]
  refine seen_bind ((contained_deliver hit now).seen_eq rfl) fun _ m' n' hm' _ hcore => ?_
  have hin := (contained_deliver hit now).keeps.of_ok hm'
  rw [seen_congr (bind_congr_left (announceProgress_eq (hm.of_inputs hin).source) _)]
  exact ((contained_give hit _).bind fun _ => contained_pure _).seen_eq hcore

/-- Reading a source to its end shows what giving the notices of its pieces shows. -/
theorem seen_drain (hit : it.Contained) {strict : Bool} {s : Stream} {ps : List Piece}
    (hyields : s.Yields it.chunkSize ps) : ∀ {m : Machine} {load : Load} {src : Source}
    {before : List Char} {ls : List Line} {reads : Nat}, m.Reads load.source src s →
    load.source ∉ src.inner → load.reader = .reached strict before →
    (readingOfRest strict before (documentOf load.decoder ps)).lines = .ok ls → ps.length < reads →
    (it.drain reads load).seen m =
      (it.giveAll (noticesFrom strict src.total before load.decoder src.consumed ps) >>= fun _ =>
        pure (load.lines ++ ls)).seen m := by
  induction hyields with
  | @done s s' x p hread hp hlen =>
    intro m load src before ls reads hm hinner hreader hls hreads
    obtain ⟨reads, rfl⟩ : ∃ n, reads = n + 1 := ⟨reads - 1, by omega⟩
    have hfound : (readingOfRest strict before load.decoder.finish).found = ls := by
      rw [documentOf] at hls
      rw [Reading.found, hls]
    rw [drain_succ, seen_bind_ok (take_eq_ok hm hread), receive, bind_assoc,
      seen_bind_ok (accept_eq_ok hp), if_pos hlen, noticesFrom, hfound, giveAll_lines]
    simp only [bind_assoc, pure_bind, drainRest, bind_pure]
    rw [seen_finish hit hreader hls]
    exact ((contained_deliver hit ls).bind fun _ => contained_pure _).seen_eq
      (Machine.countRead_core ..)
  | @more s s' x p ps hread hp hlen hrest ih =>
    intro m load src before ls reads hm hinner hreader hls hreads
    obtain ⟨reads, rfl⟩ : ∃ n, reads = n + 1 := ⟨reads - 1, by omega⟩
    obtain ⟨rest, rfl, hnow, hreached, hrest⟩ := rest_append hls
    rw [drain_succ, seen_bind_ok (take_eq_ok hm hread), receive, bind_assoc,
      seen_bind_ok (accept_eq_ok hp), if_neg hlen]
    have hm' := (hm.updateStream s').countRead
      ((m.updateStream src.stream fun _ => s').passage load.source) p.length
    rw [Machine.count_passage (hm.updateStream s').source hinner, Nat.one_mul] at hm'
    rw [← hreader] at hnow hreached
    rw [noticesFrom, giveAll_append, giveAll_lines, giveAll]
    simp only [bind_assoc, pure_bind, drainRest]
    refine (seen_bind (g := fun load' => it.giveAll (noticesFrom strict src.total
      (before ++ (p.decode load.decoder).1) (p.decode load.decoder).2 (src.consumed + p.length) ps)
        >>= fun _ => pure (load'.lines ++ rest)) (seen_ingest hit hnow hreached hm')
          fun load' n n' hn hn' hcore => ?_).trans ?_
    · obtain ⟨_, _, -, hn'⟩ := bind_eq_ok hn'
      obtain ⟨_, _, -, hn'⟩ := bind_eq_ok hn'
      cases hn'
      have hin := (keepsInputs_ingest hit load p).of_ok hn
      refine Eq.trans (ih (hm'.of_inputs hin) hinner rfl hrest (Nat.lt_of_succ_lt_succ hreads)) ?_
      exact ((contained_giveAll hit _).bind fun _ => contained_pure _).seen_eq hcore
    · simp only [bind_assoc, pure_bind, List.append_assoc]
      exact ((contained_deliver hit _).bind fun _ => (contained_give hit _).bind fun _ =>
        (contained_giveAll hit _).bind fun _ => contained_pure _).seen_eq
          (Machine.countRead_core ..)

/-! ### A whole load -/

theorem contained_failed (hit : it.Contained) {α : Type} (f : Fault) :
    (it.failed f : Act α).Contained := by
  have hthrow : (throw f : Act α).Contained := contained_throw f
  have hannounce : (it.announceFault f).Contained :=
    contained_call ((contained_log ..).bind fun _ => (contained_emit hit _ _).bind fun _ =>
      contained_pure _)
  by_cases hf : f.isLoad = true
  · simp only [failed, hf, if_true]
    exact hannounce.bind fun _ => hthrow
  · simp only [failed, hf]
    exact hthrow

theorem contained_logLoaded (count : Nat) : (logLoaded count).Contained := by
  refine contained_get (fun m => contained_log ..) fun m n h => ?_
  have hm : m.modal = n.modal := Machine.eq_of_core h _ fun _ => rfl
  simp only [hm]

theorem contained_succeeded (hit : it.Contained) (ls : List Line) : (it.succeeded ls).Contained :=
  (contained_logLoaded _).bind fun _ => (contained_emit hit _ _).bind fun _ => contained_pure _

/-- If two loads show the same, they show the same when their end is announced. -/
theorem seen_concluded (hit : it.Contained) {a b : Act (List Line)} {m n : Machine}
    (h : a.seen m = b.seen n) : (it.concluded a).seen m = (it.concluded b).seen n := by
  refine seen_bind (seen_attempt h) fun r m' n' _ _ hcore => ?_
  cases r with
  | error f => exact (contained_failed hit f).seen_eq hcore
  | ok ls => exact (contained_succeeded hit ls).seen_eq hcore

/-- A load in the foreground shows what giving the notices of its pieces shows, the end announced.
The turns that it takes are `turnsPerRead` for every read, and there is at most one read for each
thing left to read and one more. -/
theorem seen_readStream (hit : it.Contained) (hintact : it.Intact) {e : Encoding}
    (he : encodingNamed it.encoding = .ok e) {m : Machine} (hq : m.queue = []) {h : Handle}
    {src : Source} {s : Stream} (hh : h.StandsFor m src s) {ps : List Piece}
    (hyields : s.Yields it.chunkSize ps) {ls : List Line}
    (hls : (LineReader.program { strict := m.strict } (documentOf { encoding := e } ps)).1.lines =
      .ok ls) (total : Literal) {fuel : Nat} (hfuel : (s.left + 1) * s.turnsPerRead ≤ fuel) :
    (it.readStream fuel h total).seen m =
      (it.concluded (it.giveAll (noticesFrom m.strict (src.withTotal total).total []
        { encoding := e } src.consumed ps) >>= fun _ => pure ls)).leaving.seen m := by
  obtain ⟨i, m', hprepare, hcore, hm', hinner⟩ := prepare_eq hintact he hh total
  have hq' : m'.queue = [] := (Machine.eq_of_core hcore _ fun _ => rfl).trans hq
  rw [seen_congr (readStream_eq_concluded hit hprepare hm' hq' (Nat.lt_succ_self _) hfuel)]
  refine seen_leaving (seen_concluded hit ?_)
  rw [← readingOfRest_nil] at hls
  refine Eq.trans (seen_drain hit hyields hm' hinner (LineReader.reached_nil m.strict).symm hls
    (Nat.lt_succ_of_le hyields.length_le)) ?_
  rw [Source.withTotal_consumed]
  exact ((contained_giveAll hit _).bind fun _ => contained_pure _).seen_eq hcore

end Interpreter

end Gcode
