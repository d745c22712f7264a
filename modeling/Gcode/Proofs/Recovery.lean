import Gcode.Proofs.Joining
import Gcode.Proofs.Notices
import Gcode.Proofs.Refusals

/-!
Reading on after a fault. A line that is refused ends the reading of a piece, but the reader may be
given more. The complete lines that stand behind the refused one in its piece are lost: they are
neither read nor counted, while the pending text is that of the whole document. Main statement:
lines and faults have their numbers in the document, less the number of lines lost before
(`feed_numbering`).
-/

namespace Gcode

/-- The lines that a text completes behind the text before it, with their numbers in the whole. -/
def completedLines (before text : List Char) : List (List Char × Nat) :=
  ((numberedLines (before ++ text)).take (completeCount (before ++ text))).drop
    (completeCount before)

/-- The lines behind the first one that is refused. -/
def behindRefused (strict : Bool) : List (List Char × Nat) → List (List Char × Nat)
  | [] => []
  | p :: ps =>
    match Line.parseNumbered strict p with
    | .error _ => ps
    | .ok _ => behindRefused strict ps

/-- How many complete lines are lost if pieces are fed one after the other. -/
def lostLines (strict : Bool) (before : List Char) : List (List Char) → Nat
  | [] => 0
  | p :: ps =>
    (behindRefused strict (completedLines before p)).length + lostLines strict (before ++ p) ps

/-- The reader after some pieces, whether they were read or refused. -/
def LineReader.feedAll (r : LineReader) (ps : List (List Char)) : LineReader :=
  ps.foldl (fun r p => (r.feed p).2) r

/-- Raises the number of a line. -/
def renumber (n : Nat) (p : List Char × Nat) : List Char × Nat := (p.1, p.2 + n)

theorem zipIdx_renumber (n k : Nat) (xs : List (List Char)) :
    (xs.zipIdx k).map (renumber n) = xs.zipIdx (k + n) := by
  induction xs generalizing k with
  | nil => rfl
  | cons x xs ih =>
    rw [List.zipIdx_cons, List.map_cons, ih, List.zipIdx_cons, Nat.add_right_comm]
    rfl

theorem parse_lowered (strict : Bool) (n : Nat) (p : List Char × Nat) :
    Line.parse strict (renumber n p).1 (some (((renumber n p).2 : Int) - n)) =
      Line.parseNumbered strict p := by
  have hnumber : ((p.2 + n : Nat) : Int) - n = p.2 := by omega
  rw [renumber, hnumber, Line.parseNumbered]

/-- The lines that a text completes are those that are cut from what is pending and the text. -/
theorem completedLines_eq (before text : List Char) : completedLines before text =
    (cutLines ((cutLines before).2 ++ text)).1.zipIdx (completeCount before + 1) := by
  have hnumbered : (numberedLines (before ++ text)).take (completeCount (before ++ text)) =
      (cutLines (before ++ text)).1.zipIdx 1 := by
    rw [numberedLines, ← completed_append_lastLine, List.zipIdx_append, completeCount,
      List.take_left' List.length_zipIdx]
  have hbefore : ((cutLines before).1.zipIdx 1).length = completeCount before :=
    List.length_zipIdx
  rw [completedLines, hnumbered, cutLines_append, List.zipIdx_append, List.drop_left' hbefore,
    Nat.add_comm]
  rfl

/-! ### What is lost -/

/-- Whether a line is refused does not depend on its number, so neither does what is behind it. -/
theorem length_behindRefused_renumber (strict : Bool) (n : Nat) (ps : List (List Char × Nat)) :
    (behindRefused strict (ps.map (renumber n))).length = (behindRefused strict ps).length := by
  induction ps with
  | nil => rfl
  | cons p ps ih =>
    rw [List.map_cons, behindRefused, behindRefused]
    cases hp : Line.parseNumbered strict p with
    | ok line? =>
      obtain ⟨y, hy⟩ := Line.parse_replaced hp (some ((renumber n p).2 : Int))
      have hraised : Line.parseNumbered strict (renumber n p) = .ok y := hy
      rw [hraised]
      exact ih
    | error f =>
      cases hraised : Line.parseNumbered strict (renumber n p) with
      | error f' => exact List.length_map _
      | ok line? =>
        obtain ⟨y, hy⟩ := Line.parse_replaced hraised (some (p.2 : Int))
        have hread : Line.parseNumbered strict p = .ok y := hy
        rw [hp] at hread
        cases hread

/-- A reading counts all lines but those behind a refused one. -/
theorem Reading.count_add_behindRefused (strict : Bool) (xs : List (List Char)) : ∀ count : Nat,
    (ofLines strict count xs).count + (behindRefused strict (xs.zipIdx (count + 1))).length =
      count + xs.length := by
  induction xs with
  | nil => exact fun _ => rfl
  | cons x xs ih =>
    intro count
    rw [List.zipIdx_cons, ofLines, behindRefused, List.length_cons, Line.parseNumbered]
    dsimp only
    cases Line.parse strict x (some ((count + 1 : Nat) : Int)) with
    | error f =>
      dsimp only
      rw [List.length_zipIdx]
      omega
    | ok line? =>
      have := ih (count + 1)
      dsimp only
      omega

/-- A reading that fails has read the lines before one that is refused. -/
theorem Reading.refused_of_error {strict : Bool} {f : Fault} (xs : List (List Char)) :
    ∀ {count : Nat}, (ofLines strict count xs).lines = .error f →
      ∃ read p unread, xs.zipIdx (count + 1) = read ++ p :: unread ∧
        (∀ q ∈ read, ∃ line?, Line.parseNumbered strict q = .ok line?) ∧
        Line.parseNumbered strict p = .error f := by
  induction xs with
  | nil => intro count h; cases h
  | cons x xs ih =>
    intro count h
    rw [ofLines] at h
    cases hx : Line.parse strict x (some ((count + 1 : Nat) : Int)) with
    | error g =>
      simp only [hx] at h
      cases h
      exact ⟨[], (x, count + 1), xs.zipIdx (count + 1 + 1), List.zipIdx_cons, by simp, hx⟩
    | ok line? =>
      have hrest : (ofLines strict (count + 1) xs).lines = .error f := by
        simp only [hx] at h
        cases hlines : (ofLines strict (count + 1) xs).lines with
        | ok ls => rw [hlines] at h; cases h
        | error g => rw [hlines] at h; cases h; rfl
      obtain ⟨read, p, unread, hsplit, hread, hp⟩ := ih hrest
      refine ⟨(x, count + 1) :: read, p, unread, ?_, ?_, hp⟩
      · rw [List.zipIdx_cons, hsplit]
        rfl
      · exact List.forall_mem_cons.2 ⟨⟨line?, hx⟩, hread⟩

namespace LineReader

/-- What pieces leave behind: the reader has counted all complete lines but those that were lost, and
the pending text is that of the document. -/
structure Behind (strict : Bool) (before : List Char) (lost : Nat) (r : LineReader) : Prop where
  strict_eq : r.strict = strict
  count : r.count + lost = completeCount before
  pending : r.pending = (cutLines before).2

namespace Behind

variable {strict : Bool} {before : List Char} {lost : Nat} {r : LineReader}

/-- The lines that a piece completes, under the numbers that the reader gives them. -/
theorem renumbered (h : Behind strict before lost r) (piece : List Char) :
    ((cutLines (r.pending ++ piece)).1.zipIdx (r.count + 1)).map (renumber lost) =
      completedLines before piece := by
  rw [zipIdx_renumber, completedLines_eq, h.pending, ← h.count, Nat.add_right_comm]

theorem feed (h : Behind strict before lost r) (piece : List Char) :
    Behind strict (before ++ piece)
      (lost + (behindRefused strict (completedLines before piece)).length) (r.feed piece).2 := by
  have hread := Reading.count_add_behindRefused strict (cutLines (r.pending ++ piece)).1 r.count
  rw [← length_behindRefused_renumber strict lost, h.renumbered] at hread
  have hcount := h.count
  have hcomplete := completeCount_append before piece
  rw [← h.pending] at hcomplete
  refine ⟨h.strict_eq, ?_, ?_⟩
  · rw [feed_reader, feed_reading, h.strict_eq]
    dsimp only
    omega
  · rw [pending_append, ← h.pending]
    rfl

theorem feedAll (ps : List (List Char)) : ∀ {before : List Char} {lost : Nat} {r : LineReader},
    Behind strict before lost r →
      Behind strict (before ++ ps.flatten) (lost + lostLines strict before ps) (r.feedAll ps) := by
  induction ps with
  | nil =>
    intro before lost r h
    rw [List.flatten_nil, List.append_nil]
    exact h
  | cons p ps ih =>
    intro before lost r h
    have hrest := ih (h.feed p)
    rw [List.append_assoc, ← List.flatten_cons, Nat.add_assoc] at hrest
    exact hrest

end Behind

/-- A fresh reader that is fed pieces, some of which may be refused, has counted the complete lines
of the document but those that were lost. -/
theorem behind_feedAll (strict : Bool) (ps : List (List Char)) :
    Behind strict ps.flatten (lostLines strict [] ps) (feedAll { strict } ps) := by
  have hfresh : Behind strict [] 0 { strict } := ⟨rfl, rfl, rfl⟩
  have h := hfresh.feedAll ps
  rw [List.nil_append, Nat.zero_add] at h
  exact h

/-- A piece gives the lines that it completes, or the fault of the first that is refused, under their
numbers in all the text so far, less the number of lines that earlier pieces lost; these are the
complete lines behind a refused one in its piece. -/
theorem feed_numbering (strict : Bool) (earlier : List (List Char)) (piece : List Char) :
    (∀ ls, ((feedAll { strict } earlier).feed piece).1.lines = .ok ls →
      ((completedLines earlier.flatten piece).filter (hasInk ·.1)).map (fun p =>
          Line.parse strict p.1 (some (p.2 - lostLines strict [] earlier))) =
        ls.map (fun l => .ok (some l)) ∧
      ls.map (·.sourceLine) =
        ((completedLines earlier.flatten piece).filter (hasInk ·.1)).map fun p =>
          some (p.2 - lostLines strict [] earlier : Int)) ∧
    (∀ f, ((feedAll { strict } earlier).feed piece).1.lines = .error f →
      ∃ read p unread, completedLines earlier.flatten piece = read ++ p :: unread ∧
        (∀ q ∈ read, ∃ line?, Line.parseNumbered strict q = .ok line?) ∧
        Line.parse strict p.1 (some (p.2 - lostLines strict [] earlier)) = .error f ∧
        (f.kind = .tokenize → f.line? = some (p.2 - lostLines strict [] earlier : Int))) := by
  have hbehind := behind_feedAll strict earlier
  generalize lostLines strict [] earlier = lost at hbehind ⊢
  generalize feedAll { strict } earlier = r at hbehind ⊢
  rw [← hbehind.renumbered piece, feed_reading, hbehind.strict_eq]
  constructor
  · intro ls hls
    have hlines := Reading.lines_ofLines strict _ hls
    have hplaces := sourceLine_of_parseNumbered strict (fun p hp => (List.mem_filter.1 hp).2) hlines
    constructor
    · rw [← hlines, List.filter_map, List.map_map]
      exact List.map_congr_left fun p _ => parse_lowered strict lost p
    · rw [hplaces, List.filter_map, List.map_map, List.map_map]
      refine List.map_congr_left fun p _ => ?_
      simp [renumber]
  · intro f hf
    obtain ⟨read, p, unread, hsplit, hread, hp⟩ := Reading.refused_of_error _ hf
    have hlowered := parse_lowered strict lost p
    refine ⟨read.map (renumber lost), renumber lost p, unread.map (renumber lost), ?_, ?_, ?_, ?_⟩
    · rw [hsplit, List.map_append, List.map_cons]
    · intro q hq
      obtain ⟨q', hq', rfl⟩ := List.mem_map.1 hq
      obtain ⟨line?, hline⟩ := hread q' hq'
      exact Line.parse_replaced hline _
    · rw [hlowered, hp]
    · intro hkind
      rw [Line.line?_of_refused hp hkind]
      simp [renumber]

/-- A line end is cut in two, and a line is lost in the second piece. The fifth line is refused with
the number four. -/
theorem feed_numbering_torn :
    ∃ f, ((feedAll { strict := true } ["G1\r".toList, "\n?\nG2\nG".toList, "3\n".toList]).feed
        "?\n".toList).1.lines = .error f ∧
      completedLines "G1\r\n?\nG2\nG3\n".toList "?\n".toList = [("?".toList, 5)] ∧
      f.line? = some 4 := by
  have hread : ((feedAll { strict := true } ["G1\r".toList, "\n?\nG2\nG".toList,
      "3\n".toList]).feed "?\n".toList).1.lines = .error (.unexpectedText "?" "?" (some 4)) := by
    decide +kernel
  have hcompleted : completedLines "G1\r\n?\nG2\nG3\n".toList "?\n".toList =
      [("?".toList, 5)] := by decide +kernel
  have hlost : lostLines true [] ["G1\r".toList, "\n?\nG2\nG".toList, "3\n".toList] = 1 := by
    decide +kernel
  obtain ⟨read, p, unread, hsplit, -, -, hplace⟩ := (feed_numbering true _ _).2 _ hread
  have hwhole : ["G1\r".toList, "\n?\nG2\nG".toList, "3\n".toList].flatten =
      "G1\r\n?\nG2\nG3\n".toList := by decide
  rw [hwhole, hcompleted] at hsplit
  obtain ⟨-, rfl, -⟩ : read = [] ∧ p = ("?".toList, 5) ∧ unread = [] := by
    rcases read with _ | ⟨q, read⟩
    · cases hsplit
      exact ⟨rfl, rfl, rfl⟩
    · have hlength := congrArg List.length hsplit
      simp at hlength
  refine ⟨_, hread, hcompleted, ?_⟩
  rw [hplace rfl, hlost]
  rfl

/-- Numbers are not those of the document: behind a refused line two are lost, and the fifth line
has the number three. -/
theorem feed_numbering_shifted :
    ¬ ∀ (earlier : List (List Char)) (piece : List Char) (ls : List Line),
      ((feedAll { strict := true } earlier).feed piece).1.lines = .ok ls →
        ls.map (·.sourceLine) =
          ((completedLines earlier.flatten piece).filter (hasInk ·.1)).map fun p =>
            some (p.2 : Int) := by
  intro hphysical
  have hread : ((feedAll { strict := true } ["G1\n?\nG2\nG3\n".toList]).feed
      "G4\n".toList).1.lines = .ok [⟨"G4", [⟨"G", .int 4⟩], none, none, some 3, none⟩] := by
    decide +kernel
  exact absurd (hphysical _ _ _ hread) (by decide +kernel)

end LineReader

end Gcode
