import Gcode.Proofs.Failure
import Gcode.Proofs.Numbering

/-!
Input that is refused. Loading at once reads the complete document before it carries out the first
line, so a source that cannot be read, or a line that is refused wherever it stands, ends the load
before anything has happened. Main statement: such a load ends with the fault of the source or of
the first line that is refused, and leaves the machine as it was, except for the log
(`loadAtOnce_refused`).
-/

namespace Gcode

open Act
open Gcode.Text

/-! ### The first line that is refused -/

/-- A line is refused for a checksum that is no numeral or, if reading is strict, for stray text;
the latter fault has the number of the line. -/
theorem Line.parse_error {strict : Bool} {s : List Char} {place : Option Int} {f : Fault}
    (h : Line.parse strict s place = .error f) :
    (∃ digits refusal, f = .badInteger digits refusal) ∨
      strict = true ∧ ∃ stray text, f = .unexpectedText stray text place := by
  rw [Line.parse] at h
  dsimp only at h
  split at h
  · cases h
  rw [Checksum.take] at h
  split at h
  · rename_i g htake
    split at htake
    · cases htake
    split at htake
    · cases h; cases htake
      exact .inl ⟨_, _, rfl⟩
    · cases htake
  · split at h
    · cases h
    split at h
    · cases h
    split at h
    · rename_i hstray
      cases h
      exact .inr ⟨(Bool.and_eq_true_iff.1 hstray).1, _, _, rfl⟩
    · cases h

/-- A fault of the text has the number of the line that is refused. -/
theorem Line.line?_of_refused {strict : Bool} {p : List Char × Nat} {f : Fault}
    (h : Line.parseNumbered strict p = .error f) (hkind : f.kind = .tokenize) :
    f.line? = some (p.2 : Int) := by
  rcases Line.parse_error h with ⟨digits, refusal, rfl⟩ | ⟨-, stray, text, rfl⟩
  · cases hkind
  · rfl

/-- The first of some numbered lines that is refused, with its fault. The lines before it are
read. -/
inductive FirstRefused (strict : Bool) : List (List Char × Nat) → List Char × Nat → Fault → Prop
  | here {p : List Char × Nat} {f : Fault} (ps : List (List Char × Nat))
      (h : Line.parseNumbered strict p = .error f) : FirstRefused strict (p :: ps) p f
  | later {p q : List Char × Nat} {f : Fault} {ps : List (List Char × Nat)} {line? : Option Line}
      (hq : Line.parseNumbered strict q = .ok line?) (h : FirstRefused strict ps p f) :
      FirstRefused strict (q :: ps) p f

namespace FirstRefused

variable {strict : Bool} {ps : List (List Char × Nat)} {p p' : List Char × Nat} {f f' : Fault}

theorem refused (h : FirstRefused strict ps p f) : Line.parseNumbered strict p = .error f := by
  induction h with
  | here _ h => exact h
  | later _ _ ih => exact ih

/-- If any line is refused, there is a first one. -/
theorem exists_of_mem (hmem : p ∈ ps) (hp : Line.parseNumbered strict p = .error f) :
    ∃ p' f', FirstRefused strict ps p' f' := by
  induction ps with
  | nil => cases hmem
  | cons q ps ih =>
    cases hq : Line.parseNumbered strict q with
    | error f' => exact ⟨q, f', .here ps hq⟩
    | ok line? =>
      rcases List.mem_cons.1 hmem with rfl | hmem
      · rw [hp] at hq; cases hq
      · obtain ⟨p', f', hfirst⟩ := ih hmem
        exact ⟨p', f', .later hq hfirst⟩

/-- There is only one first line that is refused. -/
theorem unique (h : FirstRefused strict ps p f) (h' : FirstRefused strict ps p' f') :
    p = p' ∧ f = f' := by
  induction h with
  | here _ hp =>
    cases h' with
    | here _ hp' => rw [hp] at hp'; exact ⟨rfl, Except.error.inj hp'⟩
    | later hq _ => rw [hp] at hq; cases hq
  | later hq _ ih =>
    cases h' with
    | here _ hp' => rw [hq] at hp'; cases hp'
    | later _ h' => exact ih h'

end FirstRefused

/-- A reading ends with the fault of the first line that is refused. -/
theorem Reading.lines_of_firstRefused {strict : Bool} {p : List Char × Nat} {f : Fault}
    {xs : List (List Char)} : ∀ {count : Nat}, FirstRefused strict (xs.zipIdx (count + 1)) p f →
      (ofLines strict count xs).lines = .error f := by
  induction xs with
  | nil => intro count h; cases h
  | cons x xs ih =>
    intro count h
    rw [ofLines]
    cases h with
    | here _ hp =>
      have hx : Line.parse strict x (some ((count + 1 : Nat) : Int)) = .error f := hp
      simp only [hx]
    | @later _ _ _ _ line? hq h =>
      have hx : Line.parse strict x (some ((count + 1 : Nat) : Int)) = .ok line? := hq
      simp only [hx, ih h, Except.map]

/-! ### Loading at once -/

/-- What can be loaded at once. -/
inductive Document where
  | text (x : Literal)
  | file (path : Literal)

/-- The operation that loads a document at once. -/
def Document.operation : Document → Operation
  | .text _ => .loadString
  | .file _ => .loadFile

namespace Interpreter

variable {it : Interpreter} {m : Machine} {f : Fault} {callback : Option String}

/-- The text of a document, or why it cannot be read. -/
def contents (it : Interpreter) : Document → Except Fault (List Char)
  | .text .null => .ok []
  | .text (.text s) => .ok s.toList
  | .text (.bytes b) | .text (.byteArray b) => decodeAll it.encoding b
  | .text x => .error (.notJoinable x.typeName)
  | .file path => it.disk.readText path it.encoding

/-- Loads a document at once. -/
def loadAtOnce (it : Interpreter) : Document → Option String → Act (List Line)
  | .text x, callback => it.loadString x callback
  | .file path, callback => it.loadFile path callback

/-- What stands in front of an operation of the interpreter. -/
def Hinders (it : Interpreter) (f : Fault) : Prop := ∃ op, it.dialect.obstacle? op = some f

/-- An action ends with a fault and changes nothing but the log, unless something stands in front of
an operation; then it ends with the fault of that instead. -/
def Refuses {α : Type} (it : Interpreter) (a : Act α) (m : Machine) (f : Fault) : Prop :=
  ∃ f' log, a m = .error f' { m with log } ∧ (f' = f ∨ it.Hinders f')

theorem refuses_throw {α : Type} (f : Fault) (m : Machine) : it.Refuses (throw f : Act α) m f :=
  ⟨f, m.log, rfl, .inl rfl⟩

theorem Refuses.call {α : Type} {op : Operation} {body : Act α} (h : it.Refuses body m f) :
    it.Refuses (it.call op body) m f := by
  rw [Interpreter.call, require]
  cases hop : it.dialect.obstacle? op with
  | none => exact h
  | some g => exact ⟨g, m.log, rfl, .inr ⟨op, hop⟩⟩

/-- A text with a line that is refused is not loaded, whatever would be done with its lines. -/
theorem loadText_refuses {text : List Char} {p : List Char × Nat}
    (h : FirstRefused m.strict (numberedLines text) p f) :
    it.Refuses (it.loadText text callback) m f := by
  have hlines : (LineReader.program { strict := m.strict } text).1.lines = .error f := by
    rw [LineReader.program_reading]
    exact Reading.lines_of_firstRefused h
  obtain ⟨log, hread⟩ := linesOf_error hlines m
  exact Refuses.call ⟨f, log, bind_error hread _, .inl rfl⟩

/-- A document that cannot be read is not loaded. -/
theorem loadAtOnce_unreadable {d : Document} (h : it.contents d = .error f) :
    it.Refuses (it.loadAtOnce d callback) m f := by
  have hread : ∀ {r : Except Fault (List Char)}, r = .error f → ∀ op, it.Refuses
      (it.call op (Act.ofExcept r >>= fun text => it.loadText text callback)) m f := by
    rintro r rfl op
    exact Refuses.call (refuses_throw f m)
  cases d with
  | file path => exact hread h _
  | text x =>
    cases x with
    | null => cases h
    | text s => cases h
    | bytes b => exact hread h _
    | byteArray b => exact hread h _
    | _ => cases h; exact Refuses.call (Refuses.call (refuses_throw _ m))

/-- Loading a document that can be read is loading its text. -/
theorem loadAtOnce_eq_call {d : Document} {text : List Char} (h : it.contents d = .ok text) :
    it.loadAtOnce d callback = it.call d.operation (it.loadText text callback) := by
  have hread : ∀ {r : Except Fault (List Char)}, r = .ok text → ∀ op,
      it.call op (Act.ofExcept r >>= fun text => it.loadText text callback) =
        it.call op (it.loadText text callback) := by
    rintro r rfl op
    rfl
  cases d with
  | file path => exact hread h _
  | text x =>
    cases x with
    | null => cases h; rfl
    | text s => cases h; rfl
    | bytes b => exact hread h _
    | byteArray b => exact hread h _
    | _ => cases h

theorem loadAtOnce_readable {d : Document} {text : List Char} (h : it.contents d = .ok text) :
    ∃ op, it.loadAtOnce d callback = it.call op (it.loadText text callback) :=
  ⟨_, loadAtOnce_eq_call h⟩

end Interpreter

/-- Loading text, bytes or a file at once does nothing if the document cannot be read or if one of
its lines is refused, however many lines before it could have been carried out: no host code is
called, and the machine stays as it was, except for the log. A line that is refused is reported with
the fault of the first such line, and a fault of the text has the number of that line. -/
theorem loadAtOnce_refused (it : Interpreter) (d : Document) (callback : Option String)
    (m : Machine) :
    (∀ f, it.contents d = .error f → it.Refuses (it.loadAtOnce d callback) m f) ∧
      ∀ text, it.contents d = .ok text → ∀ p ∈ numberedLines text,
        (∃ f, Line.parseNumbered m.strict p = .error f) →
          ∃ p' f, FirstRefused m.strict (numberedLines text) p' f ∧
            (f.kind = .tokenize → f.line? = some (p'.2 : Int)) ∧
            it.Refuses (it.loadAtOnce d callback) m f := by
  refine ⟨fun f h => Interpreter.loadAtOnce_unreadable h, ?_⟩
  rintro text htext p hp ⟨f, hf⟩
  obtain ⟨p', f', hfirst⟩ := FirstRefused.exists_of_mem hp hf
  obtain ⟨op, hload⟩ := Interpreter.loadAtOnce_readable htext
  refine ⟨p', f', hfirst, Line.line?_of_refused hfirst.refused, ?_⟩
  rw [hload]
  exact Interpreter.Refuses.call (Interpreter.loadText_refuses hfirst)

/-- A document whose third and fourth lines are refused, after one that could be carried out. -/
def brokenText : String := "G1 X1\r\n\nG2 ?\rG3 !"

theorem loadAtOnce_refused_brokenText :
    ∃ f log, Interpreter.loadAtOnce {} (.text (.text brokenText)) none
        { strict := true, handlers := ⟨[("G1", .callable "move")]⟩ } =
      .error f { strict := true, handlers := ⟨[("G1", .callable "move")]⟩, log } ∧
        f.line? = some 3 := by
  have hthird : FirstRefused true (numberedLines brokenText.toList) ("G2 ?".toList, 3)
      (.unexpectedText "?" "G2 ?" (some 3)) :=
    .later rfl (.later rfl (.here _ rfl))
  have hmem : ("G3 !".toList, 4) ∈ numberedLines brokenText.toList := by decide
  obtain ⟨p, f, hfirst, -, f', log, hload, hf'⟩ :=
    (loadAtOnce_refused {} (.text (.text brokenText)) none
      { strict := true, handlers := ⟨[("G1", .callable "move")]⟩ }).2 _ rfl _ hmem ⟨_, rfl⟩
  obtain ⟨rfl, rfl⟩ := hfirst.unique hthird
  rcases hf' with rfl | ⟨op, hop⟩
  · exact ⟨_, log, hload, rfl⟩
  · cases op <;> cases hop

end Gcode
