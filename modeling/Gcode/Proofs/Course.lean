import Gcode.Proofs.Accounts
import Gcode.Proofs.Apart

/-!
The course of a load. If host code returns and stays out of it, what a load does next is given by
how far it has come and by what it sees of its source; the modal command and the other loads have no
part in it. A load therefore has one course, whatever turns it is given. What it does on its course
comes in bouts, one for each piece that a read gives. Main statements: if a load is over after some
number of steps and after another, it has done the same and ended in the same way
(`Standing.over_unique`); and it announces and carries out the lines that each piece completes
(`Standing.follows_bouts`).
-/

namespace Gcode

open Gcode.Text

/-- A load without the number of its source and what it waits for. -/
def Load.plain (load : Load) : Load := { load with source := 0, wait := .turns 0 }

/-- How far a load has come, without the number of its source and what it waits for. -/
def Phase.plain : Phase → Phase
  | .due load => .due load.plain
  | .got load data => .got load.plain data
  | .ended outcome => .ended outcome

/-- What a task of its own does when its load is over. -/
def closing : Outcome → List Item
  | .ok ls => [.ended ls, .told (.ok ls)]
  | .error f => if f.isLoad then [.failed f, .told (.error f)] else []

/-- What a load does for others at one go: what a piece leads to that a read has given, or what is
done when it is over. -/
inductive Bout where
  | chunk (p : Piece) (xs : List Item)
  | close (outcome : Outcome)

/-- What is done in a bout. -/
def Bout.items : Bout → List Item
  | .chunk _ xs => xs
  | .close outcome => closing outcome

/-- What is done with the last piece that a load takes in, with the reader and the decoder that it
has then: one of its lines is refused, or the piece is empty and the rest of the document is read.
-/
inductive Piece.Ends (r : LineReader) (d : Decoder) (p : Piece) : List Item → Prop
  | refused {f : Fault} : p.length ≠ 0 → (r.feed (p.decode d).1).1.lines = .error f → Ends r d p []
  | rest {completed last : List Line} : p.length = 0 → (r.feed d.finish).1.lines = .ok completed →
      (r.feed d.finish).2.flush.1.lines = .ok last →
        Ends r d p [.lines completed, .lines last]
  | lastRefused {completed : List Line} {f : Fault} : p.length = 0 →
      (r.feed d.finish).1.lines = .ok completed →
        (r.feed d.finish).2.flush.1.lines = .error f → Ends r d p [.lines completed]
  | restRefused {f : Fault} : p.length = 0 → (r.feed d.finish).1.lines = .error f → Ends r d p []

/-- The bouts of a load that reads a stream and has counted so much, with the reader and the decoder
that it has: each read gives a piece; the lines that the piece completes are announced and carried
out, and the progress is announced, before the next read; and then the load is over. -/
inductive Follows (size : Int) (total : Literal) :
    Stream → Nat → LineReader → Decoder → List Bout → Prop
  | idle {s : Stream} {n : Nat} {r : LineReader} {d : Decoder} : Follows size total s n r d []
  | over {s : Stream} {n : Nat} {r : LineReader} {d : Decoder} (outcome : Outcome) :
      Follows size total s n r d [.close outcome]
  | piece {s s' : Stream} {n : Nat} {r : LineReader} {d : Decoder} {x : Literal} {p : Piece}
      {ls : List Line} {bs : List Bout} : s.read size = (.ok x, s') →
      Piece.ofLiteral? x = some p → p.length ≠ 0 → (r.feed (p.decode d).1).1.lines = .ok ls →
        Follows size total s' (n + p.length) (r.feed (p.decode d).1).2 (p.decode d).2 bs →
          Follows size total s n r d
            (.chunk p [.lines ls, .progress (n + p.length) total] :: bs)
  | last {s s' : Stream} {n : Nat} {r : LineReader} {d : Decoder} {x : Literal} {p : Piece}
      {xs : List Item} {bs : List Bout} : s.read size = (.ok x, s') →
      Piece.ofLiteral? x = some p → p.Ends r d xs → (bs = [] ∨ ∃ outcome, bs = [.close outcome]) →
        Follows size total s n r d (.chunk p xs :: bs)

/-- How far a load has come, and what it sees of its source. -/
structure Standing where
  phase : Phase
  view : View

namespace Standing

/-- What the end of the document leads to. -/
def finish (load : Load) : List Item × Outcome :=
  match (load.reader.feed load.decoder.finish).1.lines with
  | .error f => ([], .error f)
  | .ok completed =>
    match (load.reader.feed load.decoder.finish).2.flush.1.lines with
    | .error f => ([.lines completed], .error f)
    | .ok last => ([.lines completed, .lines last], .ok (load.lines ++ completed ++ last))

/-- What a piece of the document leads to, which has been counted. -/
def ingest (load : Load) (p : Piece) (v : View) : List Item × Phase :=
  match (load.reader.feed (p.decode load.decoder).1).1.lines with
  | .error f => ([], .ended (.error f))
  | .ok ls =>
    ([.lines ls, .progress v.consumed v.total],
      .due { load with
        decoder := (p.decode load.decoder).2
        reader := (load.reader.feed (p.decode load.decoder).1).2
        lines := load.lines ++ ls })

theorem ingest_plain (load : Load) (p : Piece) (v : View) :
    ingest load.plain p v = ((ingest load p v).1, (ingest load p v).2.plain) := by
  have hlines : (load.plain.reader.feed (p.decode load.plain.decoder).1).1.lines =
      (load.reader.feed (p.decode load.decoder).1).1.lines := rfl
  rw [ingest, ingest, hlines]
  cases (load.reader.feed (p.decode load.decoder).1).1.lines <;> rfl

/-- What the data of a read leads to. -/
def receive (load : Load) (data : Literal) (v : View) : List Bout × Standing :=
  match Piece.ofLiteral? data with
  | none => ([], ⟨.ended (.error (match v.titles with
      | [] => .noSource
      | title :: titles => Interpreter.reported titles (.wrongData title data.typeName))), v⟩)
  | some p =>
    let v := { v with consumed := v.consumed + p.length }
    if p.length = 0 then ([.chunk p (finish load).1], ⟨.ended (finish load).2, v⟩)
    else ([.chunk p (ingest load p v).1], ⟨(ingest load p v).2, v⟩)

/-- The next step of a load that reads so much at once, and what it does for others. -/
def step (size : Int) (c : Standing) : List Bout × Standing :=
  match c.phase with
  | .due load =>
    let v := { c.view with stream := (c.view.stream.read size).2 }
    match (c.view.stream.read size).1 with
    | .ok data => ([], ⟨.got load data, v⟩)
    | .error f => ([], ⟨.ended (.error (Interpreter.reported c.view.titles f)), v⟩)
  | .got load data => receive load data c.view
  | .ended _ => ([], c)

/-- How far a load has come some steps later. -/
def ahead (size : Int) (c : Standing) : Nat → Standing
  | 0 => c
  | n + 1 => (c.step size).2.ahead size n

/-- The bouts of a load in its next steps. -/
def bouts (size : Int) (c : Standing) : Nat → List Bout
  | 0 => []
  | n + 1 => (c.step size).1 ++ (c.step size).2.bouts size n

/-- What a load does for others in its next steps. -/
def items (size : Int) (c : Standing) (n : Nat) : List Item := (c.bouts size n).flatMap Bout.items

variable {size : Int} {c : Standing} {outcome outcome' : Outcome} {n k : Nat} {v : View}
  {s : Stream}

theorem step_taken {load : Load} {data : Literal} (h : v.stream.read size = (.ok data, s)) :
    step size ⟨.due load, v⟩ = ([], ⟨.got load data, { v with stream := s }⟩) := by
  simp only [step, h]

theorem step_unread {load : Load} {f : Fault} (h : v.stream.read size = (.error f, s)) :
    step size ⟨.due load, v⟩ =
      ([], ⟨.ended (.error (Interpreter.reported v.titles f)), { v with stream := s }⟩) := by
  simp only [step, h]

theorem ahead_add (n k : Nat) : ∀ c : Standing,
    c.ahead size (n + k) = (c.ahead size n).ahead size k := by
  induction n with
  | zero => intro c; rw [Nat.zero_add, ahead]
  | succ n ih => intro c; rw [Nat.succ_add, ahead, ahead, ih]

theorem bouts_add (n k : Nat) : ∀ c : Standing,
    c.bouts size (n + k) = c.bouts size n ++ (c.ahead size n).bouts size k := by
  induction n with
  | zero => intro c; rw [Nat.zero_add, bouts, ahead, List.nil_append]
  | succ n ih => intro c; rw [Nat.succ_add, bouts, bouts, ahead, ih, List.append_assoc]

/-- A load that is over does nothing any more. -/
theorem over_ahead (h : c.phase = .ended outcome) : ∀ n, c.ahead size n = c ∧ c.bouts size n = []
  | 0 => ⟨rfl, rfl⟩
  | n + 1 => by
    have hstep : c.step size = ([], c) := by
      rw [step, h]
    rw [ahead, bouts, hstep]
    exact over_ahead h n

/-- What a load has done at any time is the beginning of what it has done when it is over. -/
theorem bouts_begin (h : (c.ahead size k).phase = .ended outcome) (n : Nat) :
    c.bouts size n <+: c.bouts size k := by
  rcases Nat.le_total n k with hle | hle
  · obtain ⟨d, rfl⟩ := Nat.exists_eq_add_of_le hle
    rw [bouts_add]
    exact List.prefix_append _ _
  · obtain ⟨d, rfl⟩ := Nat.exists_eq_add_of_le hle
    have hbouts : c.bouts size (k + d) = c.bouts size k := by
      rw [bouts_add, (over_ahead h d).2, List.append_nil]
    exact hbouts ▸ List.prefix_rfl

/-- What a load has done when it is over, and how it has ended, is the same however late it is seen.
-/
theorem over_unique (h : (c.ahead size n).phase = .ended outcome)
    (h' : (c.ahead size k).phase = .ended outcome') :
    c.bouts size n = c.bouts size k ∧ outcome = outcome' := by
  have hbouts : c.bouts size n = c.bouts size k :=
    (bouts_begin h' n).eq_of_length_le (bouts_begin h k).length_le
  refine ⟨hbouts, ?_⟩
  have hsame : (c.ahead size n).phase = (c.ahead size k).phase := by
    rcases Nat.le_total n k with hle | hle
    · obtain ⟨d, rfl⟩ := Nat.exists_eq_add_of_le hle
      rw [ahead_add, (over_ahead h d).1]
    · obtain ⟨d, rfl⟩ := Nat.exists_eq_add_of_le hle
      rw [ahead_add, (over_ahead h' d).1]
  rw [h, h'] at hsame
  exact Phase.ended.inj hsame

/-! ### What a load does with its pieces -/

/-- The end of the document is a last piece. -/
theorem ends_finish {load : Load} {p : Piece} (hp : p.length = 0) :
    p.Ends load.reader load.decoder (finish load).1 := by
  rw [finish]
  cases hcompleted : (load.reader.feed load.decoder.finish).1.lines with
  | error f => exact .restRefused hp hcompleted
  | ok completed =>
    cases hlast : (load.reader.feed load.decoder.finish).2.flush.1.lines with
    | error f => exact .lastRefused hp hcompleted hlast
    | ok last => exact .rest hp hcompleted hlast

/-- Some bouts are those of a load from where it stands. Data that it has got already is what the
last read gave. -/
def Has (size : Int) (bs : List Bout) (c : Standing) : Prop :=
  match c.phase with
  | .due load => Follows size c.view.total c.view.stream c.view.consumed load.reader load.decoder bs
  | .got load data => ∀ s : Stream, s.read size = (.ok data, c.view.stream) →
      Follows size c.view.total s c.view.consumed load.reader load.decoder bs
  | .ended _ => bs = [] ∨ ∃ outcome, bs = [.close outcome]

/-- A load that has done nothing more may be over. -/
theorem has_tail {bs : List Bout} (hbs : bs = [] ∨ ∃ outcome, bs = [.close outcome])
    (c : Standing) : c.Has size bs := by
  have hfollows : ∀ {total s n r d}, Follows size total s n r d bs := by
    rcases hbs with rfl | ⟨outcome, rfl⟩
    · exact .idle
    · exact .over outcome
  rw [Has]
  split
  · exact hfollows
  · exact fun _ _ => hfollows
  · exact hbs

/-- The bouts of the data that a load has got, if it has the others from then on. -/
theorem has_receive {load : Load} {data : Literal} {bs : List Bout}
    (h : (receive load data v).2.Has size bs) (hread : s.read size = (.ok data, v.stream)) :
    Follows size v.total s v.consumed load.reader load.decoder
      ((receive load data v).1 ++ bs) := by
  cases hp : Piece.ofLiteral? data with
  | none =>
    simp only [receive, hp, Has, List.nil_append] at h ⊢
    rcases h with rfl | ⟨outcome, rfl⟩
    · exact .idle
    · exact .over outcome
  | some p =>
    by_cases hlen : p.length = 0
    · simp only [receive, hp, if_pos hlen, Has] at h ⊢
      exact .last hread hp (ends_finish hlen) h
    · cases hlines : (load.reader.feed (p.decode load.decoder).1).1.lines with
      | error f =>
        simp only [receive, hp, if_neg hlen, ingest, hlines, Has] at h ⊢
        exact .last hread hp (.refused hlen hlines) h
      | ok ls =>
        simp only [receive, hp, if_neg hlen, ingest, hlines, Has] at h ⊢
        exact .piece hread hp hlen hlines h

/-- The bouts of a load are those of the stream that it sees. The induction is on the steps: a read
adds nothing, and the data of a read adds its bout. -/
theorem has_bouts {tail : List Bout} (htail : tail = [] ∨ ∃ outcome, tail = [.close outcome])
    (n : Nat) : ∀ c : Standing, c.Has size (c.bouts size n ++ tail) := by
  induction n with
  | zero => exact has_tail htail
  | succ n ih =>
    intro c
    have hnext := ih (c.step size).2
    obtain ⟨phase, v⟩ := c
    rw [bouts, List.append_assoc]
    cases phase with
    | ended outcome =>
      rw [show (step size ⟨.ended outcome, v⟩) = ([], ⟨.ended outcome, v⟩) from rfl] at hnext ⊢
      exact hnext
    | got load data => exact fun s hread => has_receive hnext hread
    | due load =>
      rcases hread : v.stream.read size with ⟨got, s'⟩
      cases got with
      | ok data =>
        rw [step_taken hread] at hnext ⊢
        exact hnext v.stream hread
      | error f =>
        rw [step_unread hread] at hnext ⊢
        rcases hnext with hnil | ⟨outcome, hclose⟩
        · exact has_tail (.inl hnil) ⟨.due load, v⟩
        · exact has_tail (.inr ⟨outcome, hclose⟩) ⟨.due load, v⟩

/-- A load that stands before its first read announces and carries out the lines that each piece
completes, and is over then. -/
theorem follows_bouts (size : Int) (load : Load) (v : View) (n : Nat) (outcome : Outcome) :
    Follows size v.total v.stream v.consumed load.reader load.decoder
      (bouts size ⟨.due load, v⟩ n ++ [.close outcome]) :=
  has_bouts (.inr ⟨outcome, rfl⟩) n ⟨.due load, v⟩

end Standing

end Gcode
