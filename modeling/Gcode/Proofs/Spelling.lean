import Gcode.Proofs.Grammar
import Gcode.Proofs.WellFormed

/-!
Lines that are spelled out: words one after the other, with white space anywhere between their
characters, and nothing else. Main statement: such a line is read as these words, strictly as well
as leniently (`Line.parse_spelled`). A document that is one such line is that line.
-/

namespace Gcode

open Gcode.Text

/-- A word as it is written: a letter, and behind it a run of value characters. -/
structure Spelling where
  letter : Char
  value : List Char
  isAlpha : letter.isAlpha = true
  value_ne_nil : value ≠ []
  isValueChar : ∀ c ∈ value, Scan.isValueChar c = true

namespace Spelling

/-- The characters of a word. -/
def chars (w : Spelling) : List Char := w.letter :: w.value

/-- The word that is meant. -/
def word (w : Spelling) : Word := ⟨String.singleton w.letter.toUpper, Value.read w.value⟩

/-- The characters of some words. -/
def text (ws : List Spelling) : List Char := ws.flatMap chars

@[simp]
theorem text_nil : text [] = [] := rfl

@[simp]
theorem text_cons (w : Spelling) (ws : List Spelling) :
    text (w :: ws) = w.letter :: (w.value ++ text ws) := rfl

theorem isWordSequence_text (ws : List Spelling) : Scan.IsWordSequence (text ws) := by
  refine ⟨ws.map chars, fun x hx => ?_, List.flatMap_def⟩
  obtain ⟨w, -, rfl⟩ := List.mem_map.1 hx
  exact ⟨w.letter, w.value, rfl, w.isAlpha, w.value_ne_nil, w.isValueChar⟩

theorem takeWhile_text (ws : List Spelling) : (text ws).takeWhile Scan.isValueChar = [] := by
  cases ws with
  | nil => rfl
  | cons w ws =>
    rw [text_cons]
    exact List.takeWhile_cons_of_neg (by simp [isValueChar_of_isAlpha w.isAlpha])

/-- A character of spelled words is a letter or a character of a value. -/
theorem mem_text {ws : List Spelling} {c : Char} (hc : c ∈ text ws) :
    c.isAlpha = true ∨ Scan.isValueChar c = true := by
  obtain ⟨w, -, hc⟩ := List.mem_flatMap.1 hc
  rcases List.mem_cons.1 hc with rfl | hc
  · exact .inl w.isAlpha
  · exact .inr (w.isValueChar c hc)

/-- Values have no words in them. -/
theorem words_value {value : List Char} (h : ∀ c ∈ value, Scan.isValueChar c = true)
    (rest : List Char) : Scan.words (value ++ rest) = Scan.words rest := by
  induction value with
  | nil => rfl
  | cons c value ih =>
    obtain ⟨hc, hvalue⟩ := List.forall_mem_cons.1 h
    rw [List.cons_append, Scanner.words_cons_of_not_alpha (isAlpha_of_isValueChar hc), ih hvalue]

/-- Words are read as they are spelled: each ends where the next begins. -/
theorem words_text (ws : List Spelling) : Scan.words (text ws) = ws.map word := by
  induction ws with
  | nil => rfl
  | cons w ws ih =>
    obtain ⟨c, value, hvalue⟩ := List.exists_cons_of_ne_nil w.value_ne_nil
    have hstarts : Scan.startsValue (w.value ++ text ws) = true := by
      rw [hvalue]
      exact w.isValueChar c (hvalue ▸ List.mem_cons_self)
    rw [text_cons, Scan.words, w.isAlpha, hstarts, Bool.and_self, if_pos rfl,
      List.takeWhile_append_of_pos w.isValueChar, takeWhile_text, List.append_nil,
      words_value w.isValueChar, ih]
    rfl

end Spelling

namespace Line

variable {s : List Char} {ws : List Spelling}

/-- A text without a line break whose characters, but for the white space, are those of words. -/
structure Spells (s : List Char) (ws : List Spelling) : Prop where
  feed : '\n' ∉ s
  carriage : '\r' ∉ s
  compact_eq : compact s = Spelling.text ws

theorem Spells.not_mem (h : Spells s ws) {c : Char} (hblank : isBlank c = false)
    (halpha : c.isAlpha = false) (hvalue : Scan.isValueChar c = false) : c ∉ s := by
  intro hc
  have hmem : c ∈ compact s := List.mem_filter.2 ⟨hc, by rw [hblank]; rfl⟩
  rw [h.compact_eq] at hmem
  rcases Spelling.mem_text hmem with h | h
  · rw [halpha] at h
    cases h
  · rw [hvalue] at h
    cases h

/-- Without parentheses and semicolons, the scanner drops white space and nothing else. -/
theorem kept_eq_compact {s : List Char} (hopen : '(' ∉ s) (hsemi : ';' ∉ s) :
    kept false s = compact s := by
  induction s with
  | nil => rfl
  | cons c s ih =>
    simp only [List.mem_cons, not_or] at hopen hsemi
    rw [kept, if_neg fun h => hopen.1 h.1.symm, if_neg (Ne.symm hsemi.1), ih hopen.2 hsemi.2,
      compact, compact, List.filter_cons]
    cases isBlank c <;> rfl

theorem Spells.kept_eq (h : Spells s ws) : kept false (trim s) = Spelling.text ws := by
  rw [kept_trim, ← h.compact_eq]
  exact kept_eq_compact (h.not_mem (by decide) (by decide) (by decide))
    (h.not_mem (by decide) (by decide) (by decide))

theorem Spells.take_trim (h : Spells s ws) : Checksum.take (trim s) = .ok (trim s, none) := by
  have hstar : '*' ∉ s := h.not_mem (by decide) (by decide) (by decide)
  cases hsplit : Checksum.split? (trim s) with
  | none => rw [Checksum.take, hsplit]
  | some p =>
    have hmem : '*' ∈ trim s := by
      rw [Checksum.split?_eq hsplit]
      simp
    exact absurd (mem_trimWhile hmem) hstar

/-- The line that some words are spelled out on. -/
def spelled (s : List Char) (ws : List Spelling) (place : Option Int) : Line where
  text := String.ofList (trim s)
  words := (Scan.takeNumber (ws.map Spelling.word)).2
  number := (Scan.takeNumber (ws.map Spelling.word)).1
  sourceLine := place

/-- Spelled words are read as they are spelled, strictly as well as leniently. -/
theorem parse_spelled (h : Spells s ws) (hne : ws ≠ []) (strict : Bool) (place : Option Int) :
    parse strict s place = .ok (some (spelled s ws place)) := by
  obtain ⟨w, ws, rfl⟩ := List.exists_cons_of_ne_nil hne
  have hbreak : '\n' ∉ trim s := fun hmem => h.feed (mem_trimWhile hmem)
  have hcompact : compact (bare (trim s)) = Spelling.text (w :: ws) := by
    rw [compact_bare hbreak, h.kept_eq]
  have hraw : trim s ≠ [] := by
    intro hnil
    rw [hnil] at hcompact
    cases hcompact
  have hbare : bare (trim s) ≠ [] := by
    rw [Ne, ← compact_bare_eq_nil, hcompact]
    exact List.cons_ne_nil _ _
  have hdirective : isDirective (bare (trim s)) = false := by
    rw [bare, ← isDirective_compact_trim, ← bare, hcompact]
    have hletter := w.isAlpha
    cases hchar : isDirective (Spelling.text (w :: ws)) with
    | false => rfl
    | true =>
      have hsign : w.letter = '%' ∨ w.letter = '$' := by
        simpa [isDirective, Spelling.text_cons] using hchar
      rcases hsign with hsign | hsign <;> (rw [hsign] at hletter; cases hletter)
  have hstray : Scan.strays false (Spelling.text (w :: ws)) = [] :=
    (Scan.strays_eq_nil _).1.2 (Spelling.isWordSequence_text _)
  simp only [parse, h.take_trim, hcompact, hstray, List.isEmpty_eq_false_iff.2 hraw,
    List.isEmpty_eq_false_iff.2 hbare, hdirective, Spelling.words_text, List.isEmpty_nil,
    Bool.not_true, Bool.and_false, Bool.false_eq_true, if_false]
  rfl

end Line

/-! ### Documents of one line -/

theorem physicalLines_single {s : List Char} (hreturn : '\r' ∉ s) (hfeed : '\n' ∉ s)
    (hne : s ≠ []) : physicalLines s = [s] := by
  induction s with
  | nil => exact absurd rfl hne
  | cons c s ih =>
    simp only [List.mem_cons, not_or] at hreturn hfeed
    rw [physicalLines_plain (Ne.symm hreturn.1) (Ne.symm hfeed.1)]
    by_cases hs : s = []
    · subst hs
      rfl
    · rw [ih hreturn.2 hfeed.2 hs]
      rfl

theorem LineReader.program_spelled {s : List Char} {ws : List Spelling} (h : Line.Spells s ws)
    (hne : ws ≠ []) (strict : Bool) :
    (program { strict } s).1.lines = .ok [Line.spelled s ws (some 1)] := by
  have hs : s ≠ [] := by
    rintro rfl
    obtain ⟨w, ws, rfl⟩ := List.exists_cons_of_ne_nil hne
    exact List.cons_ne_nil _ _ h.compact_eq.symm
  have hparse := Line.parse_spelled h hne strict (some 1)
  rw [program_reading, physicalLines_single h.carriage h.feed hs]
  simp only [Reading.ofLines, Nat.zero_add, Nat.cast_one, hparse]
  rfl

end Gcode
