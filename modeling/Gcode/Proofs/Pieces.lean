import Gcode.Proofs.PhysicalLines

/-!
Reading a document in pieces. A reader is given the pieces in order and is then told that there are
no more; the first fault ends it. Main statement: whatever the pieces are, the lines, the count, the
warnings and the fault are those of reading the whole document at once, and without a fault nothing
is pending afterwards. Both come to the same reading of the physical lines (`readPieces_reading`).
-/

namespace Gcode

/-! ### Readings one after the other -/

/-- A reading that goes on where another one stopped, unless that one failed. -/
def Reading.andThen (first : Reading) (next : Nat → Reading) : Reading :=
  match first.lines with
  | .error _ => first
  | .ok lines =>
    let r := next first.count
    ⟨r.lines.map (lines ++ ·), r.count, first.warnings ++ r.warnings⟩

theorem Reading.lines_andThen (first : Reading) (next : Nat → Reading) :
    (first.andThen next).lines =
      first.lines.bind fun lines => (next first.count).lines.map (lines ++ ·) := by
  rw [andThen]
  cases h : first.lines with
  | error f => exact h
  | ok lines => rfl

theorem Reading.ofLines_append (strict : Bool) (xs ys : List (List Char)) : ∀ count : Nat,
    ofLines strict count (xs ++ ys) =
      (ofLines strict count xs).andThen fun n => ofLines strict n ys := by
  induction xs with
  | nil =>
    intro count
    simp only [List.nil_append, ofLines, andThen]
    cases h : (ofLines strict count ys).lines <;> simp [Except.map, ← h]
  | cons x xs ih =>
    intro count
    rw [List.cons_append, ofLines, ofLines]
    cases hx : Line.parse strict x (some ((count + 1 : Nat) : Int)) with
    | error f => rfl
    | ok line? =>
      simp only [ih (count + 1), andThen]
      cases hxs : (ofLines strict (count + 1) xs).lines with
      | error f => simp [Except.map, hxs]
      | ok ls =>
        simp only [Except.map]
        cases (ofLines strict (ofLines strict (count + 1) xs).count ys).lines <;> simp

/-- A reading that does not fail reads its first line, and then the others. -/
theorem Reading.lines_cons_eq_ok {strict : Bool} {count : Nat} {x : List Char}
    {xs : List (List Char)} {ls : List Line} :
    (ofLines strict count (x :: xs)).lines = .ok ls ↔
      ∃ line? rest, Line.parse strict x (some ((count + 1 : Nat) : Int)) = .ok line? ∧
        (ofLines strict (count + 1) xs).lines = .ok rest ∧ ls = line?.toList ++ rest := by
  rw [ofLines]
  rcases hx : Line.parse strict x (some ((count + 1 : Nat) : Int)) with f | line?
  · simp
  · rcases hxs : (ofLines strict (count + 1) xs).lines with f | rest
    · simp [hxs, Except.map]
    · simp [hxs, Except.map, eq_comm]

/-- A reading that does not fail looks at every line. -/
theorem Reading.count_ofLines (strict : Bool) (xs : List (List Char)) : ∀ {count : Nat}
    {ls : List Line}, (ofLines strict count xs).lines = .ok ls →
    (ofLines strict count xs).count = count + xs.length := by
  induction xs with
  | nil => intro count ls _; rfl
  | cons x xs ih =>
    intro count ls h
    obtain ⟨line?, rest, hx, hxs, -⟩ := lines_cons_eq_ok.1 h
    rw [ofLines]
    simp only [hx, ih hxs, List.length_cons]
    omega

/-- Two parts are read one after the other, unless the first fails. -/
theorem Reading.lines_append (strict : Bool) (count : Nat) (xs ys : List (List Char)) :
    (ofLines strict count (xs ++ ys)).lines =
      (ofLines strict count xs).lines.bind fun as =>
        (ofLines strict (count + xs.length) ys).lines.map (as ++ ·) := by
  rw [ofLines_append, lines_andThen]
  cases hxs : (ofLines strict count xs).lines with
  | error f => rfl
  | ok as => rw [count_ofLines strict xs hxs]

/-- Two parts that are each read without a fault are so one after the other. -/
theorem Reading.append_ok {strict : Bool} {xs ys : List (List Char)} {count : Nat}
    {as bs : List Line} (hxs : (ofLines strict count xs).lines = .ok as)
    (hys : (ofLines strict (count + xs.length) ys).lines = .ok bs) :
    (ofLines strict count (xs ++ ys)).lines = .ok (as ++ bs) := by
  rw [lines_append, hxs, hys]
  rfl

namespace LineReader

/-- Reads a document that comes in pieces, and then what is pending. The first fault ends it. -/
def readPieces (r : LineReader) : List (List Char) → Reading × LineReader
  | [] => r.flush
  | p :: ps =>
    let (first, r) := r.feed p
    match first.lines with
    | .error _ => (first, r)
    | .ok lines =>
      let (rest, r) := r.readPieces ps
      (⟨rest.lines.map (lines ++ ·), rest.count, first.warnings ++ rest.warnings⟩, r)

/-- The pending text holds no complete line. -/
def Settled (r : LineReader) : Prop := (cutLines r.pending).1 = []

/-! ### What a reader does with a piece -/

theorem feed_reading (r : LineReader) (text : List Char) :
    (r.feed text).1 = Reading.ofLines r.strict r.count (cutLines (r.pending ++ text)).1 := rfl

theorem feed_reader (r : LineReader) (text : List Char) :
    (r.feed text).2 = ⟨r.strict, (r.feed text).1.count, (cutLines (r.pending ++ text)).2⟩ := rfl

theorem flush_reading (r : LineReader) :
    r.flush.1 = Reading.ofLines r.strict r.count (lastLine r.pending) := rfl

theorem flush_reader (r : LineReader) : r.flush.2 = ⟨r.strict, r.flush.1.count, []⟩ := rfl

theorem program_eq_readPieces (r : LineReader) (text : List Char) :
    r.program text = r.readPieces [text] := rfl

theorem readPieces_of_error {r : LineReader} {p : List Char} {f : Fault}
    (h : (r.feed p).1.lines = .error f) (ps : List (List Char)) :
    r.readPieces (p :: ps) = r.feed p := by
  simp only [readPieces, h]

theorem readPieces_of_ok {r : LineReader} {p : List Char} {lines : List Line}
    (h : (r.feed p).1.lines = .ok lines) (ps : List (List Char)) :
    r.readPieces (p :: ps) =
      ((r.feed p).1.andThen fun _ => ((r.feed p).2.readPieces ps).1,
        ((r.feed p).2.readPieces ps).2) := by
  simp only [readPieces, Reading.andThen, h]

theorem readPieces_cons (r : LineReader) (p : List Char) (ps : List (List Char)) :
    (r.readPieces (p :: ps)).1 = (r.feed p).1.andThen fun _ => ((r.feed p).2.readPieces ps).1 := by
  cases h : (r.feed p).1.lines with
  | error f => rw [readPieces_of_error h, Reading.andThen, h]
  | ok lines => rw [readPieces_of_ok h]

theorem settled_fresh (strict : Bool) : Settled { strict } := rfl

theorem settled_feed (r : LineReader) (text : List Char) : (r.feed text).2.Settled :=
  cutLines_rest (r.pending ++ text)

/-! ### What a reader does with a document -/

/-- Pieces are read as the physical lines of the whole. -/
theorem readPieces_reading (ps : List (List Char)) : ∀ {r : LineReader}, r.Settled →
    (r.readPieces ps).1 =
      Reading.ofLines r.strict r.count (physicalLines (r.pending ++ ps.flatten)) := by
  induction ps with
  | nil =>
    intro r hr
    have hlast : physicalLines r.pending = lastLine r.pending := by
      rw [← completed_append_lastLine, hr, cutLines_pending hr, List.nil_append]
    rw [readPieces, flush_reading, List.flatten_nil, List.append_nil, hlast]
  | cons p ps ih =>
    intro r _
    have hcut : physicalLines (r.pending ++ (p :: ps).flatten) =
        (cutLines (r.pending ++ p)).1 ++
          physicalLines ((cutLines (r.pending ++ p)).2 ++ ps.flatten) := by
      rw [List.flatten_cons, ← List.append_assoc, physicalLines_append]
    rw [readPieces_cons, ih (settled_feed r p), hcut, Reading.ofLines_append, ← feed_reading]
    rfl

/-- Without a fault the reader ends with the count of the reading and nothing pending. -/
theorem readPieces_reader (ps : List (List Char)) : ∀ {r : LineReader} {ls : List Line},
    (r.readPieces ps).1.lines = .ok ls →
    (r.readPieces ps).2 = ⟨r.strict, (r.readPieces ps).1.count, []⟩ := by
  induction ps with
  | nil => intro r ls _; exact flush_reader r
  | cons p ps ih =>
    intro r ls h
    cases hp : (r.feed p).1.lines with
    | error f => rw [readPieces_of_error hp, hp] at h; cases h
    | ok first =>
      rw [readPieces_of_ok hp] at h ⊢
      cases hps : ((r.feed p).2.readPieces ps).1.lines with
      | error f => simp [Reading.andThen, hp, hps, Except.map] at h
      | ok rest => exact (ih hps).trans (by simp only [Reading.andThen, hp, feed_reader])

/-- The count of the reader is that of the reading, also after a fault. -/
theorem readPieces_count (ps : List (List Char)) : ∀ (r : LineReader),
    (r.readPieces ps).2.count = (r.readPieces ps).1.count := by
  induction ps with
  | nil => intro r; rfl
  | cons p ps ih =>
    intro r
    cases hp : (r.feed p).1.lines with
    | error f => rw [readPieces_of_error hp, feed_reader]
    | ok first =>
      rw [readPieces_of_ok hp, Reading.andThen, hp]
      exact ih (r.feed p).2

theorem program_reading (strict : Bool) (text : List Char) :
    (program { strict } text).1 = Reading.ofLines strict 0 (physicalLines text) := by
  rw [program_eq_readPieces, readPieces_reading [text] (settled_fresh strict),
    List.flatten_singleton, List.nil_append]

theorem program_reader {r : LineReader} {text : List Char} {ls : List Line}
    (h : (r.program text).1.lines = .ok ls) :
    (r.program text).2 = ⟨r.strict, (r.program text).1.count, []⟩ :=
  readPieces_reader [text] h

/-- A document that is fed in pieces, empty ones among them or not, is read as it is read at once:
the same lines or the same fault, the same warnings and the same count. Either a fault ends both, or
the readers end alike with nothing pending. -/
theorem readPieces_eq_program (strict : Bool) (ps : List (List Char)) :
    (readPieces { strict } ps).1 = (program { strict } ps.flatten).1 ∧
      (readPieces { strict } ps).2.count = (program { strict } ps.flatten).2.count ∧
      ((∃ f, (program { strict } ps.flatten).1.lines = .error f) ∨
        (readPieces { strict } ps).2 = (program { strict } ps.flatten).2 ∧
          (readPieces { strict } ps).2.pending = []) := by
  have hread : (readPieces { strict } ps).1 = (program { strict } ps.flatten).1 := by
    rw [program_reading, readPieces_reading ps (settled_fresh strict), List.nil_append]
  refine ⟨hread, ?_, ?_⟩
  · have hpieces := readPieces_count ps { strict }
    have hwhole := readPieces_count [ps.flatten] { strict }
    rw [← program_eq_readPieces] at hwhole
    rw [hpieces, hwhole, hread]
  · cases hls : (program { strict } ps.flatten).1.lines with
    | error f => exact Or.inl ⟨f, rfl⟩
    | ok ls =>
      have hpieces := readPieces_reader ps (hread ▸ hls)
      have hwhole := program_reader hls
      exact Or.inr ⟨by rw [hpieces, hwhole, hread], by rw [hpieces]⟩

end LineReader

end Gcode
