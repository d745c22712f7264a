import Gcode.Proofs.Agreement
import Gcode.Proofs.Returning
import Gcode.Proofs.Unlogged

/-!
Documents in two parts. Two texts with a line feed between them have the physical lines of the one
and then those of the other, with a blank one between them at most, wherever the first stops. A line
is read alike under any number, and the modal command goes over from one load to the next. Main
statement: loading two texts one after the other is loading them at once (`loadString_joined`).
-/

namespace Gcode

open Act
open Gcode.Text

/-! ### Physical lines -/

theorem EndsLine.append {c : Char} {s : List Char} (h : EndsLine c s) (t : List Char) :
    EndsLine c (s ++ t) := by
  rcases h with rfl | ⟨rfl, hs, hx⟩
  · exact .inl rfl
  · obtain ⟨x, s, rfl⟩ := List.exists_cons_of_ne_nil hs
    exact .inr ⟨rfl, by simp, by simpa using hx⟩

/-- The lines of a text stay what they are if a line feed and another text follow. A blank line
comes between the two texts if nothing was left to be ended. -/
theorem physicalLines_join (p q : List Char) : ∃ blank : List (List Char),
    (∀ l ∈ blank, l = []) ∧ (physicalLines p = [] → blank = [[]]) ∧
      physicalLines (p ++ '\n' :: q) = physicalLines p ++ blank ++ physicalLines q := by
  have hfeed : physicalLines ('\n' :: q) = [] :: physicalLines q :=
    physicalLines_lineFeed (unifyBreaks_single (.inl rfl))
  induction p using byBreaks with
  | nil => exact ⟨[[]], by simp, fun _ => rfl, hfeed⟩
  | held =>
    have hreturn : physicalLines ['\r'] = [[]] := rfl
    have hpair := physicalLines_lineFeed (unifyBreaks_pair q)
    exact ⟨[], by simp, by simp [hreturn], by simp [hreturn, hpair]⟩
  | pair s ih =>
    obtain ⟨blank, hblank, -, hs⟩ := ih
    have hpair : ∀ t, physicalLines ('\r' :: '\n' :: t) = [] :: physicalLines t :=
      fun t => physicalLines_lineFeed (unifyBreaks_pair t)
    exact ⟨blank, hblank, by simp [hpair], by simp [hpair, hs]⟩
  | single c s hc ih =>
    obtain ⟨blank, hblank, -, hs⟩ := ih
    have hline := physicalLines_lineFeed (unifyBreaks_single hc)
    have hline' := physicalLines_lineFeed (unifyBreaks_single (hc.append ('\n' :: q)))
    exact ⟨blank, hblank, by simp [hline], by simp [hline, hline', hs]⟩
  | plain c s hr hn ih =>
    obtain ⟨blank, hblank, hnone, hs⟩ := ih
    rw [List.cons_append, physicalLines_plain hr hn, physicalLines_plain hr hn, hs]
    rcases hlines : physicalLines s with - | ⟨l, ls⟩
    · -- the line feed ends the line that `c` begins
      rw [hnone hlines]
      exact ⟨[], by simp, by simp [extendFirst], rfl⟩
    · exact ⟨blank, hblank, by simp [extendFirst], rfl⟩

/-! ### Lines without their places -/

namespace Line

/-- A line without its number in the document. -/
def unplaced (l : Line) : Line := { l with sourceLine := none }

/-- Wherever a line is read, and however strictly, it is the same line. -/
theorem parse_unplaced {a b : Bool} {s : List Char} {place place' : Option Int}
    {x y : Option Line} (h : Line.parse a s place = .ok x) (h' : Line.parse b s place' = .ok y) :
    x.map unplaced = y.map unplaced := by
  grind [Line.parse, unplaced]

/-- Whether a line is read does not depend on its number. -/
theorem parse_replaced {strict : Bool} {s : List Char} {place : Option Int} {x : Option Line}
    (h : Line.parse strict s place = .ok x) (place' : Option Int) :
    ∃ y, Line.parse strict s place' = .ok y := by
  cases h' : Line.parse strict s place' with
  | ok y => exact ⟨y, rfl⟩
  | error f => grind [Line.parse]

theorem words_of_unplaced {ls ls' : List Line} (h : ls.map unplaced = ls'.map unplaced) :
    ls.map (·.words) = ls'.map (·.words) := by
  simpa [Function.comp_def, unplaced] using congrArg (List.map (·.words)) h

end Line

namespace Reading

variable {strict a b : Bool} {count n k : Nat} {ls ls' : List Line}

theorem lines_unplaced (xs : List (List Char)) : ∀ {n k : Nat} {ls ls' : List Line},
    (ofLines a n xs).lines = .ok ls → (ofLines b k xs).lines = .ok ls' →
      ls.map Line.unplaced = ls'.map Line.unplaced := by
  induction xs with
  | nil =>
    intro n k ls ls' h h'
    cases h
    cases h'
    rfl
  | cons x xs ih =>
    intro n k ls ls' h h'
    obtain ⟨x?, rest, hx, hrest, rfl⟩ := lines_cons_eq_ok.1 h
    obtain ⟨y?, rest', hy, hrest', rfl⟩ := lines_cons_eq_ok.1 h'
    have hfirst := congrArg Option.toList (Line.parse_unplaced hx hy)
    rw [List.map_append, List.map_append, ih hrest hrest', ← Option.toList_map, hfirst,
      Option.toList_map]

/-- Lines that are read without a fault are so wherever they begin. -/
theorem lines_recounted (xs : List (List Char)) : ∀ {n : Nat} {ls : List Line},
    (ofLines strict n xs).lines = .ok ls → ∀ k, ∃ ls', (ofLines strict k xs).lines = .ok ls' := by
  induction xs with
  | nil =>
    intro n ls _ k
    exact ⟨[], rfl⟩
  | cons x xs ih =>
    intro n ls h k
    obtain ⟨x?, rest, hx, hrest, rfl⟩ := lines_cons_eq_ok.1 h
    obtain ⟨y?, hy⟩ := Line.parse_replaced hx (some ((k + 1 : Nat) : Int))
    obtain ⟨rest', hrest'⟩ := ih hrest (k + 1)
    exact ⟨_, lines_cons_eq_ok.2 ⟨y?, rest', hy, hrest', rfl⟩⟩

theorem lines_blank {blank : List (List Char)} (h : ∀ l ∈ blank, l = []) : ∀ count : Nat,
    (ofLines strict count blank).lines = .ok [] := by
  induction blank with
  | nil => intro count; rfl
  | cons l blank ih =>
    intro count
    obtain ⟨rfl, hblank⟩ := List.forall_mem_cons.1 h
    exact lines_cons_eq_ok.2 ⟨none, [], rfl, ih hblank _, rfl⟩

end Reading

/-- Two documents that are each read without a fault are so with a line feed between them, and give
the lines of the one and then those of the other. -/
theorem LineReader.program_joined {strict : Bool} {p q : List Char} {ls ls' : List Line}
    (hp : (program { strict } p).1.lines = .ok ls) (hq : (program { strict } q).1.lines = .ok ls') :
    ∃ ls'', (program { strict } (p ++ '\n' :: q)).1.lines = .ok (ls ++ ls'') ∧
      ls''.map Line.unplaced = ls'.map Line.unplaced := by
  obtain ⟨blank, hblank, -, hlines⟩ := physicalLines_join p q
  rw [program_reading] at hp hq ⊢
  obtain ⟨ls'', hq'⟩ := Reading.lines_recounted _ hq (0 + (physicalLines p ++ blank).length)
  refine ⟨ls'', ?_, Reading.lines_unplaced _ hq' hq⟩
  have hfirst := Reading.append_ok hp (Reading.lines_blank hblank _)
  rw [List.append_nil] at hfirst
  rw [hlines, Reading.append_ok hfirst hq']

/-! ### Loads one after the other -/

namespace Interpreter

variable {it : Interpreter} {m n : Machine}

theorem runLines_append (ls ls' : List Line) : ∀ index : Nat,
    it.runLines none index (ls ++ ls') =
      it.runLines none index ls >>= fun _ => it.runLines none (index + ls.length) ls' := by
  induction ls with
  | nil => intro index; simp [runLines]
  | cons l ls ih =>
    intro index
    have hindex : index + (l :: ls).length = index + 1 + ls.length := by
      rw [List.length_cons]
      omega
    simp only [List.cons_append, runLines, ih, bind_assoc, hindex]

/-- Without a line callback only the words of lines count. -/
theorem runLines_words : ∀ {ls ls' : List Line}, ls.map (·.words) = ls'.map (·.words) →
    ∀ index index' : Nat, it.runLines none index ls = it.runLines none index' ls'
  | [], [], _, _, _ => rfl
  | l :: ls, l' :: ls', h, index, index' => by
    obtain ⟨hwords, hrest⟩ := List.cons.inj h
    have hwords : l.words = l'.words := hwords
    rw [runLines, runLines, hwords, runLines_words hrest (index + 1) (index' + 1)]
    rfl

/-- A text is loaded by carrying out its lines. -/
theorem loadText_eq (hlog : it.host.IgnoresLog) (hintact : it.Intact) {text : List Char}
    {ls : List Line} (hls : (LineReader.program { strict := m.strict } text).1.lines = .ok ls)
    (hrun : it.runLines none 0 ls m = .ok () n) :
    ∃ log, it.loadText text none m = .ok ls { n with log } := by
  obtain ⟨log, hlines⟩ := linesOf_eq_ok hls m
  obtain ⟨log', hrun'⟩ := (ignoresLog_runLines hlog ls 0).of_ok hrun log
  rw [loadText, hintact.call_eq, get_bind]
  dsimp only
  rw [bind_ok hlines, bind_ok hrun']
  exact ⟨_, rfl⟩

end Interpreter

/-- Two texts that are loaded one after the other do what they do when they are loaded at once with
a line feed between them, whatever they end and begin with: the same calls of handlers and methods
with the same arguments, the same modal command and the same machine in all other respects but the
log, and the same lines up to their numbers. Host code must return and not look at the log. The
second text must be read without a fault both as strictly as at the start and as strictly as host
code wants it after the first. -/
theorem loadString_joined (it : Interpreter) (hintact : it.Intact) (hreturns : it.Returning)
    (hlog : it.host.IgnoresLog) (m : Machine) (p q : String)
    (hp : ∃ ls, (LineReader.program { strict := m.strict } p.toList).1.lines = .ok ls)
    (hq : ∃ ls, (LineReader.program { strict := m.strict } q.toList).1.lines = .ok ls)
    (hq' : ∀ ls m₁, it.loadString (.text p) none m = .ok ls m₁ →
      ∃ ls', (LineReader.program { strict := m₁.strict } q.toList).1.lines = .ok ls') :
    ∃ ls ls' both m₁ m₂ log, it.loadString (.text p) none m = .ok ls m₁ ∧
      it.loadString (.text q) none m₁ = .ok ls' m₂ ∧
      it.loadString (.text (p ++ "\n" ++ q)) none m = .ok both { m₂ with log } ∧
      both.map Line.unplaced = (ls ++ ls').map Line.unplaced := by
  obtain ⟨ls, hls⟩ := hp
  obtain ⟨qs, hqs⟩ := hq
  simp only [Interpreter.loadString_text hintact] at hq' ⊢
  -- the first load
  have hruns := hreturns.runLines_returns hintact Interpreter.lineDoneReturns_none
  obtain ⟨n₁, hrun⟩ := hruns ls 0 m
  obtain ⟨log₁, hload⟩ := Interpreter.loadText_eq hlog hintact hls hrun
  -- the second, from the same machine but for the log
  obtain ⟨ls', hls'⟩ := hq' ls _ hload
  obtain ⟨n₂, hrun'⟩ := hruns ls' 0 n₁
  obtain ⟨log', hrun''⟩ := (Interpreter.ignoresLog_runLines hlog ls' 0).of_ok hrun' log₁
  obtain ⟨log₂, hload'⟩ := Interpreter.loadText_eq hlog hintact hls' hrun''
  -- both at once
  obtain ⟨rest, hboth, hrest⟩ := LineReader.program_joined hls hqs
  have hsame : rest.map Line.unplaced = ls'.map Line.unplaced := by
    rw [LineReader.program_reading] at hqs hls'
    exact hrest.trans (Reading.lines_unplaced _ hqs hls')
  have hrunBoth : it.runLines none 0 (ls ++ rest) m = .ok () n₂ := by
    rw [Interpreter.runLines_append, bind_ok hrun,
      Interpreter.runLines_words (Line.words_of_unplaced hsame) _ 0, hrun']
  have htext : (p ++ "\n" ++ q).toList = p.toList ++ '\n' :: q.toList := by simp
  rw [← htext] at hboth
  obtain ⟨log₃, hloadBoth⟩ := Interpreter.loadText_eq hlog hintact hboth hrunBoth
  exact ⟨ls, ls', ls ++ rest, _, _, log₃, hload, hload', hloadBoth, by simp [hsame]⟩

/-- A handler that takes `X` from what the method is given and ends strict reading. -/
def relaxing : Interpreter where
  dialect := {
    table := ⟨[("G1", "move")]⟩
    attributes := ⟨[("move", .method ⟨"Mill", "move", none⟩)]⟩ }
  host := { Host.silent with handler := fun _ args => do
    modify fun m => { m with strict := false }
    pure (args.erase "X") }

theorem relaxing_returning : relaxing.Returning where
  handler _ _ _ := ⟨_, _, rfl⟩
  method code args m := by
    by_cases hcode : "G1" = code
    · subst hcode
      exact ⟨_, _, rfl⟩
    · have hnone : relaxing.dialect.table.get? code = none := by simp [relaxing, Table.get?, hcode]
      rw [Interpreter.callMethod, Dialect.attribute?, hnone]
      exact ⟨_, _, rfl⟩

theorem relaxing_ignoresLog : relaxing.host.IgnoresLog where
  handler _ _ := (ignoresLog_modify fun _ _ => ⟨_, rfl⟩).bind fun _ => ignoresLog_pure _
  method _ _ := ignoresLog_pure _
  listener _ _ := ignoresLog_pure _
  callback _ _ := ignoresLog_pure _

/-- The first text ends in a carriage return, the second begins with a line feed, and strict reading
ends on the way. -/
theorem loadString_joined_relaxing :
    ∃ ls ls' both m₁ m₂ log,
      relaxing.loadString (.text "G1 X1\r") none
          { strict := true, handlers := ⟨[("G1", .callable "trim")]⟩ } = .ok ls m₁ ∧
      relaxing.loadString (.text "\nX2 Y3") none m₁ = .ok ls' m₂ ∧
      relaxing.loadString (.text ("G1 X1\r" ++ "\n" ++ "\nX2 Y3")) none
          { strict := true, handlers := ⟨[("G1", .callable "trim")]⟩ } =
        .ok both { m₂ with log } ∧
      both.map Line.unplaced = (ls ++ ls').map Line.unplaced := by
  have hsecond : ∀ strict : Bool,
      ∃ ls, (LineReader.program { strict } "\nX2 Y3".toList).1.lines = .ok ls := by
    intro strict
    cases strict
    · exact ⟨_, rfl⟩
    · exact ⟨_, rfl⟩
  exact loadString_joined relaxing (fun op => by cases op <;> rfl) relaxing_returning
    relaxing_ignoresLog _ "G1 X1\r" "\nX2 Y3" ⟨_, rfl⟩ (hsecond true)
    fun _ m₁ _ => hsecond m₁.strict

end Gcode
