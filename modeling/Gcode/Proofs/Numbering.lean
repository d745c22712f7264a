import Gcode.Proofs.Pieces
import Mathlib.Data.List.DropRight

/-!
Line numbers. A document that is read without a fault gives its physical lines that are not blank,
each read under its number, and nothing else. It follows that the numbers ascend, and that it does
not matter which line end a document uses.
-/

namespace Gcode

open Gcode.Text

/-- Does a line hold anything but white space? -/
def hasInk (s : List Char) : Bool := s.any (!isBlank ·)

/-- The physical lines of a text with their numbers, which begin at one. -/
def numberedLines (s : List Char) : List (List Char × Nat) := (physicalLines s).zipIdx 1

/-- The three line ends. -/
def lineEnds : List (List Char) := [['\n'], ['\r'], ['\r', '\n']]

/-! ### Blank lines and numbers of lines -/

theorem trim_eq_nil_iff (s : List Char) : trim s = [] ↔ hasInk s = false := by
  have hblank : hasInk s = false ↔ s.dropWhile isBlank = [] := by
    simp [hasInk, List.dropWhile_eq_nil_iff]
  have hends : trim s = [] ↔ ∀ c ∈ s.dropWhile isBlank, isBlank c := List.rdropWhile_eq_nil_iff
  rw [hblank, hends]
  constructor
  · intro h
    by_contra hne
    -- the first character that is kept is not blank
    have hhead := List.head_dropWhile_not isBlank hne
    rw [h _ (List.head_mem hne)] at hhead
    cases hhead
  · intro h
    rw [h]
    exact fun c hc => absurd hc List.not_mem_nil

theorem Line.parse_of_blank {s : List Char} (h : hasInk s = false) (strict : Bool)
    (place : Option Int) : Line.parse strict s place = .ok none := by
  simp [Line.parse, (trim_eq_nil_iff s).mpr h]

/-- A line that is not blank is refused, or it is a line with the number that it was read under. -/
theorem Line.parse_of_ink {s : List Char} (h : hasInk s = true) (strict : Bool)
    (place : Option Int) :
    (∃ f, Line.parse strict s place = .error f) ∨
      ∃ l, Line.parse strict s place = .ok (some l) ∧ l.sourceLine = place := by
  have hraw : (trim s).isEmpty = false := by
    rw [List.isEmpty_eq_false_iff, Ne, trim_eq_nil_iff, h]; decide
  simp only [Line.parse, hraw, Bool.false_eq_true, if_false]
  cases Checksum.take (trim s) with
  | error f => exact Or.inl ⟨f, rfl⟩
  | ok taken =>
    obtain ⟨body, checksum⟩ := taken
    dsimp only
    split
    · exact Or.inr ⟨_, rfl, rfl⟩
    split
    · exact Or.inr ⟨_, rfl, rfl⟩
    split
    · exact Or.inl ⟨_, rfl⟩
    · exact Or.inr ⟨_, rfl, rfl⟩

/-! ### The lines of a reading -/

/-- Reads a line under its number. -/
def Line.parseNumbered (strict : Bool) (p : List Char × Nat) : Except Fault (Option Line) :=
  Line.parse strict p.1 (some (p.2 : Int))

/-- A reading without a fault gives the lines that are not blank, in order. -/
theorem Reading.lines_ofLines (strict : Bool) (xs : List (List Char)) : ∀ {count : Nat}
    {ls : List Line}, (ofLines strict count xs).lines = .ok ls →
    ((xs.zipIdx (count + 1)).filter (hasInk ·.1)).map (Line.parseNumbered strict) =
      ls.map fun l => .ok (some l) := by
  induction xs with
  | nil =>
    intro count ls h
    cases h; rfl
  | cons x xs ih =>
    intro count ls h
    obtain ⟨line?, rest, hx, hxs, rfl⟩ := lines_cons_eq_ok.1 h
    rw [List.zipIdx_cons, List.map_append, ← ih hxs, List.filter_cons]
    cases hink : hasInk x with
    | false =>
      have hnone : line? = none := by
        rw [Line.parse_of_blank hink] at hx; cases hx; rfl
      simp [hnone]
    | true =>
      rcases Line.parse_of_ink hink strict (some ((count + 1 : Nat) : Int)) with
        ⟨f, hf⟩ | ⟨l, hl, -⟩
      · rw [hx] at hf; cases hf
      · rw [hx] at hl; cases hl
        simp [Line.parseNumbered, ← hx]

/-- Lines that were read under numbers have these numbers. -/
theorem sourceLine_of_parseNumbered (strict : Bool) : ∀ {ps : List (List Char × Nat)}
    {ls : List Line}, (∀ p ∈ ps, hasInk p.1 = true) →
    ps.map (Line.parseNumbered strict) = ls.map (fun l => .ok (some l)) →
    ls.map (·.sourceLine) = (ps.map fun p => (p.2 : Int)).map some
  | [], [], _, _ => rfl
  | [], _ :: _, _, h => by simp at h
  | _ :: _, [], _, h => by simp at h
  | p :: ps, l :: ls, hink, h => by
    simp only [List.map_cons, List.cons.injEq] at h ⊢
    refine ⟨?_, sourceLine_of_parseNumbered strict
      (fun q hq => hink q (List.mem_cons_of_mem _ hq)) h.2⟩
    rcases Line.parse_of_ink (hink p (List.mem_cons_self ..)) strict (some (p.2 : Int)) with
      ⟨f, hf⟩ | ⟨l', hl', hplace⟩
    · have := hf.symm.trans h.1; cases this
    · have := hl'.symm.trans h.1; cases this; exact hplace

/-- The numbers of a selection of numbered lines ascend. -/
theorem zipIdx_filter_ascending (xs : List (List Char)) (n : Nat) (keep : List Char × Nat → Bool) :
    (((xs.zipIdx n).filter keep).map fun p => (p.2 : Int)).Pairwise (· < ·) := by
  have hsub : (((xs.zipIdx n).filter keep).map Prod.snd).Sublist (List.range' n xs.length) := by
    rw [← List.zipIdx_map_snd n xs]
    exact List.filter_sublist.map _
  have hlt := (List.pairwise_lt_range' (s := n) (n := xs.length)).sublist hsub
  rw [List.pairwise_map] at hlt ⊢
  exact hlt.imp fun h => Int.ofNat_lt.mpr h

/-! ### Line ends -/

/-- Characters of a line stand in front of the first line of what follows. -/
theorem physicalLines_plain_append {x : List Char} (hx : '\r' ∉ x ∧ '\n' ∉ x) {s : List Char}
    {l : List Char} {ls : List (List Char)} (hs : physicalLines s = l :: ls) :
    physicalLines (x ++ s) = (x ++ l) :: ls := by
  induction x with
  | nil => exact hs
  | cons c x ih =>
    simp only [List.mem_cons, not_or] at hx
    rw [List.cons_append, physicalLines_plain (Ne.symm hx.1.1) (Ne.symm hx.2.1),
      ih ⟨hx.1.2, hx.2.2⟩]
    rfl

theorem physicalLines_return {s : List Char} (h : s.head? ≠ some '\n') :
    physicalLines ('\r' :: s) = [] :: physicalLines s := by
  by_cases hs : s = []
  · subst hs; rfl
  · exact physicalLines_lineFeed (unifyBreaks_single (Or.inr ⟨rfl, hs, h⟩))

/-- Whichever line end closes the lines, they are the physical lines. -/
theorem physicalLines_closed {b : List Char} (hb : b ∈ lineEnds) : ∀ {xs : List (List Char)},
    (∀ x ∈ xs, '\r' ∉ x ∧ '\n' ∉ x) → physicalLines (xs.flatMap (· ++ b)) = xs
  | [], _ => rfl
  | x :: xs, hx => by
    have hxs : ∀ y ∈ xs, '\r' ∉ y ∧ '\n' ∉ y := fun y hy => hx y (List.mem_cons_of_mem _ hy)
    have ih := physicalLines_closed hb hxs
    have hfirst : physicalLines (b ++ xs.flatMap (· ++ b)) = [] :: xs := by
      simp only [lineEnds, List.mem_cons, List.not_mem_nil, or_false] at hb
      rcases hb with rfl | rfl | rfl
      · rw [List.singleton_append,
          physicalLines_lineFeed (unifyBreaks_single (Or.inl rfl)), ih]
      · -- a carriage return is not taken together with what stands at the start of the next line
        have hhead : (xs.flatMap (· ++ ['\r'])).head? ≠ some '\n' := by
          match xs, hxs with
          | [], _ => simp
          | [] :: _, _ => simp
          | (c :: y) :: _, hxs =>
            have hc := (hxs (c :: y) (List.mem_cons_self ..)).2
            simp only [List.mem_cons, not_or] at hc
            simpa using Ne.symm hc.1
        rw [List.singleton_append, physicalLines_return hhead, ih]
      · rw [List.cons_append, List.singleton_append,
          physicalLines_lineFeed (unifyBreaks_pair _), ih]
    rw [List.flatMap_cons, List.append_assoc,
      physicalLines_plain_append (hx x (List.mem_cons_self ..)) hfirst, List.append_nil]

/-! ### Documents -/

/-- Reading a document without a fault gives exactly the lines read from its physical lines that are
not blank, each under its number; blank ones give nothing. All physical lines are counted, nothing
is pending, and the numbers ascend. Lines that are closed by the same line end throughout are read
alike whichever it is. -/
theorem program_numbering (strict : Bool) (text : List Char) (ls : List Line)
    (h : (LineReader.program { strict } text).1.lines = .ok ls) :
    ((numberedLines text).filter (hasInk ·.1)).map (Line.parseNumbered strict) =
        ls.map (fun l => .ok (some l)) ∧
      (∀ p ∈ numberedLines text, hasInk p.1 = false → Line.parseNumbered strict p = .ok none) ∧
      (LineReader.program { strict } text).2.count = (physicalLines text).length ∧
      (LineReader.program { strict } text).2.pending = [] ∧
      (∃ ns : List Int, ls.map (·.sourceLine) = ns.map some ∧ ns.Pairwise (· < ·)) ∧
      ∀ xs : List (List Char), (∀ x ∈ xs, '\r' ∉ x ∧ '\n' ∉ x) → ∀ b ∈ lineEnds, ∀ b' ∈ lineEnds,
        (LineReader.program { strict } (xs.flatMap (· ++ b))).1 =
          (LineReader.program { strict } (xs.flatMap (· ++ b'))).1 := by
  have hread := LineReader.program_reading strict text
  have hreader := LineReader.program_reader h
  rw [hread] at h
  have hlines := Reading.lines_ofLines strict (physicalLines text) h
  refine ⟨hlines, fun p _ hp => Line.parse_of_blank hp strict _, ?_, ?_, ?_, ?_⟩
  · rw [hreader, hread, Reading.count_ofLines strict _ h, Nat.zero_add]
  · rw [hreader]
  · exact ⟨_, sourceLine_of_parseNumbered strict (fun p hp => (List.mem_filter.mp hp).2) hlines,
      zipIdx_filter_ascending _ _ _⟩
  · intro xs hxs b hb b' hb'
    rw [LineReader.program_reading, LineReader.program_reading, physicalLines_closed hb hxs,
      physicalLines_closed hb' hxs]

/-- Line ends of all kinds, and a blank line between two others. -/
theorem program_numbering_mixed :
    (LineReader.program { strict := true } "G1\r\n\r \nM3\r".toList).2.count = 4 ∧
      ((numberedLines "G1\r\n\r \nM3\r".toList).filter (hasInk ·.1)).map (Line.parseNumbered true) =
        [.ok (some ⟨"G1", [⟨"G", .int 1⟩], none, none, some 1, none⟩),
         .ok (some ⟨"M3", [⟨"M", .int 3⟩], none, none, some 4, none⟩)] := by
  have h : (LineReader.program { strict := true } "G1\r\n\r \nM3\r".toList).1.lines =
      .ok [⟨"G1", [⟨"G", .int 1⟩], none, none, some 1, none⟩,
        ⟨"M3", [⟨"M", .int 3⟩], none, none, some 4, none⟩] := rfl
  obtain ⟨hlines, -, hcount, -⟩ := program_numbering true _ _ h
  exact ⟨hcount.trans rfl, hlines⟩

end Gcode
