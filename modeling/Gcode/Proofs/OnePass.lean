import Gcode.Proofs.Lenient
import Mathlib

/-!
Lines in one pass. A line is read in several passes: its checksum is cut off, then the comments in
parentheses, then the comment behind a semicolon, then all white space, and then it is searched for
words. Here the same is done by a scanner that goes over the text once, from left to right, and does
not know of checksums. Main statement: reading leniently finds what the scanner finds, and therefore
nothing depends on white space, on the case of letters, on further comments or on a checksum
(`parse_eq_scanLine`).
-/

namespace Gcode

open Gcode.Text

/-! ### The scanner -/

/-- What is found in a line: its number and its other words. -/
structure Findings where
  number : Option Int := none
  words : List Word := []
  deriving DecidableEq, Repr

/-- Adds a word. The first `N` with an integer is the number of the line. -/
def Findings.add (f : Findings) (w : Word) : Findings :=
  if w.letter = "N" ∧ f.number = none then
    match w.value with
    | .int n => { f with number := some n }
    | _ => { f with words := f.words ++ [w] }
  else { f with words := f.words ++ [w] }

/-- What the scanner is in the middle of. -/
inductive Mode where
  /-- Nothing was kept so far. -/
  | fresh
  /-- The line is a directive. -/
  | directive
  /-- Between two words. -/
  | idle
  /-- After a letter and some characters of its value. -/
  | word (letter : Char) (value : List Char)

/-- A scanner between two characters of a line. -/
structure Scanner where
  mode : Mode := .fresh
  found : Findings := {}

namespace Scanner

open Scan

/-- A character that is not part of a value begins a word if it is a letter. -/
def begin (c : Char) : Mode := if c.isAlpha then .word c [] else .idle

/-- What has been found when a word ends. A letter alone is no word. -/
def close (s : Scanner) : Findings :=
  match s.mode with
  | .word letter (c :: cs) =>
    s.found.add ⟨String.singleton letter.toUpper, Value.read (c :: cs)⟩
  | _ => s.found

/-- Takes a character that is neither white space nor part of a comment. -/
def keep (s : Scanner) (c : Char) : Scanner :=
  match s.mode with
  | .fresh => { s with mode := if c = '%' ∨ c = '$' then .directive else begin c }
  | .directive => s
  | .idle => { s with mode := begin c }
  | .word letter value =>
    if isValueChar c then { s with mode := .word letter (value ++ [c]) }
    else { mode := begin c, found := s.close }

/-- Goes over a text, inside a comment in parentheses or outside. Such a comment begins only if it
is closed somewhere. -/
def scan (s : Scanner) : (inComment : Bool) → List Char → Findings
  | _, [] => s.close
  | true, c :: cs => s.scan (c ≠ ')') cs
  | false, c :: cs =>
    if c = '(' ∧ ')' ∈ cs then s.scan true cs
    else if c = ';' then s.close
    else if isBlank c then s.scan false cs
    else (s.keep c).scan false cs

end Scanner

/-- What the scanner finds in a line. -/
def scanLine (text : List Char) : Findings := Scanner.scan {} false text

/-! ### The characters that are kept -/

/-- The characters of a text that the scanner keeps. -/
def kept : (inComment : Bool) → List Char → List Char
  | _, [] => []
  | true, c :: cs => kept (c ≠ ')') cs
  | false, c :: cs =>
    if c = '(' ∧ ')' ∈ cs then kept true cs
    else if c = ';' then []
    else if isBlank c then kept false cs
    else c :: kept false cs

theorem Scanner.scan_eq_kept (cs : List Char) : ∀ (s : Scanner) (inComment : Bool),
    s.scan inComment cs = ((kept inComment cs).foldl keep s).close := by
  induction cs with
  | nil => intro s inComment; cases inComment <;> rfl
  | cons c cs ih =>
    intro s inComment
    cases inComment with
    | true => exact ih s _
    | false =>
      rw [scan, kept]
      split
      · exact ih s true
      split
      · rfl
      split
      · exact ih s false
      · exact ih (s.keep c) false

/-- White space makes no difference to what is kept. -/
theorem kept_blank {c : Char} (hc : isBlank c = true) (t : List Char) (s : List Char) :
    ∀ inComment, kept inComment (s ++ c :: t) = kept inComment (s ++ t) := by
  have hopen : c ≠ '(' := by rintro rfl; exact absurd hc (by decide)
  have hclose : c ≠ ')' := by rintro rfl; exact absurd hc (by decide)
  have hsemi : c ≠ ';' := by rintro rfl; exact absurd hc (by decide)
  induction s with
  | nil =>
    intro inComment
    cases inComment with
    | true => simp [kept, hclose]
    | false => simp [kept, hopen, hsemi, hc]
  | cons d s ih =>
    intro inComment
    have hmem : ')' ∈ s ++ c :: t ↔ ')' ∈ s ++ t := by simp [hclose.symm]
    cases inComment with
    | true => exact ih _
    | false => simp only [List.cons_append, kept, hmem, ih]

theorem kept_blanks {b : List Char} (hb : ∀ c ∈ b, isBlank c = true) (s t : List Char) :
    ∀ inComment, kept inComment (s ++ (b ++ t)) = kept inComment (s ++ t) := by
  induction b with
  | nil => exact fun _ => rfl
  | cons c b ih =>
    intro inComment
    obtain ⟨hc, hb⟩ := List.forall_mem_cons.1 hb
    rw [List.cons_append, kept_blank hc, ih hb]

/-- A text is its trimmed form with white space around it. -/
theorem trim_surrounded (s : List Char) : ∃ before behind : List Char,
    s = before ++ (trim s ++ behind) ∧ (∀ c ∈ before, isBlank c = true) ∧
      ∀ c ∈ behind, isBlank c = true := by
  refine ⟨s.takeWhile isBlank, (s.dropWhile isBlank).rtakeWhile isBlank, ?_,
    fun c hc => List.mem_takeWhile_imp hc, fun c hc => List.mem_rtakeWhile_imp hc⟩
  have hends : trim s ++ (s.dropWhile isBlank).rtakeWhile isBlank = s.dropWhile isBlank :=
    List.rdropWhile_append_rtakeWhile ..
  rw [hends, List.takeWhile_append_dropWhile]

theorem kept_trim (s : List Char) : kept false (trim s) = kept false s := by
  obtain ⟨before, behind, hs, hbefore, hbehind⟩ := trim_surrounded s
  have hfront := kept_blanks hbefore [] (trim s ++ behind) false
  have hback := kept_blanks hbehind (trim s) [] false
  simp only [List.append_nil, List.nil_append] at hfront hback
  conv_rhs => rw [hs]
  rw [hfront, hback]

/-- Nothing is kept of a comment that is never closed. -/
theorem kept_unclosed {t : List Char} (h : ')' ∉ t) : kept true t = [] := by
  induction t with
  | nil => rfl
  | cons c t ih =>
    simp only [List.mem_cons, not_or] at h
    have hc : (c ≠ ')') = True := eq_true (Ne.symm h.1)
    rw [kept, decide_eq_true (of_eq_true hc), ih h.2]

/-- A comment ends with the first closing parenthesis. -/
theorem kept_closed {x : List Char} (h : ')' ∉ x) (t : List Char) :
    kept true (x ++ ')' :: t) = kept false t := by
  induction x with
  | nil => rfl
  | cons c x ih =>
    simp only [List.mem_cons, not_or] at h
    rw [List.cons_append, kept, decide_eq_true (Ne.symm h.1), ih h.2]

/-- A character that is no white space and has no part in a comment. -/
def IsPlain (c : Char) : Prop := isBlank c = false ∧ c ≠ '(' ∧ c ≠ ')' ∧ c ≠ ';'

theorem kept_plain {t : List Char} (ht : ∀ c ∈ t, IsPlain c) : kept false t = t := by
  induction t with
  | nil => rfl
  | cons c t ih =>
    obtain ⟨⟨hblank, hopen, -, hsemi⟩, ht⟩ := List.forall_mem_cons.1 ht
    simp [kept, hopen, hsemi, hblank, ih ht]

/-- Plain text at the end is kept unless it stands in a comment. -/
theorem kept_append_plain {t : List Char} (ht : ∀ c ∈ t, IsPlain c) (s : List Char) :
    ∀ inComment, kept inComment (s ++ t) = kept inComment s ∨
      kept inComment (s ++ t) = kept inComment s ++ t := by
  have hclose : ')' ∉ t := fun h => (ht ')' h).2.2.1 rfl
  induction s with
  | nil =>
    intro inComment
    cases inComment with
    | true => exact .inl (kept_unclosed hclose)
    | false => exact .inr (kept_plain ht)
  | cons c s ih =>
    intro inComment
    have hmem : ')' ∈ s ++ t ↔ ')' ∈ s := by simp [hclose]
    cases inComment with
    | true => exact ih _
    | false =>
      simp only [List.cons_append, kept, hmem]
      split
      · exact ih true
      split
      · exact .inl rfl
      split
      · exact ih false
      · rcases ih false with h | h
        · exact .inl (by rw [h])
        · exact .inr (by rw [h]; rfl)

/-- In a text some comment has begun that is not closed. -/
def LeftOpen (s : List Char) : Prop := ∃ a b, s = a ++ '(' :: b ∧ ')' ∉ b

/-- A further comment makes no difference to what is kept, unless it closes one before it. -/
theorem kept_comment {x : List Char} (hx : ')' ∉ x) (t s : List Char) (hs : ¬ LeftOpen s) :
    ∀ inComment, (inComment = true → ')' ∈ s) →
      kept inComment (s ++ '(' :: (x ++ ')' :: t)) = kept inComment (s ++ t) := by
  induction s with
  | nil =>
    intro inComment hin
    cases inComment with
    | true => exact absurd (hin rfl) List.not_mem_nil
    | false =>
      have hclosed : ')' ∈ x ++ ')' :: t := List.mem_append_right _ List.mem_cons_self
      rw [List.nil_append, List.nil_append, kept, if_pos ⟨rfl, hclosed⟩, kept_closed hx]
  | cons c s ih =>
    have hrest : ¬ LeftOpen s := by
      rintro ⟨a, b, rfl, hb⟩
      exact hs ⟨c :: a, b, rfl, hb⟩
    have hopen : c = '(' → ')' ∈ s := by
      rintro rfl
      by_contra hno
      exact hs ⟨[], s, rfl, hno⟩
    intro inComment hin
    cases inComment with
    | true =>
      refine ih hrest _ fun hc => ?_
      have hne : c ≠ ')' := of_decide_eq_true hc
      exact (List.mem_cons.1 (hin rfl)).resolve_left (Ne.symm hne)
    | false =>
      have hclosed : ∀ u, c = '(' ∧ ')' ∈ s ++ u ↔ c = '(' := fun u =>
        ⟨And.left, fun hc => ⟨hc, List.mem_append_left _ (hopen hc)⟩⟩
      simp only [List.cons_append, kept, hclosed]
      split
      · rename_i hc
        exact ih hrest true fun _ => hopen hc
      · rw [ih hrest false nofun]

/-! ### The passes -/

open Comment

/-- On one line a comment is closed if a closing parenthesis follows. -/
theorem length?_isSome {s : List Char} (hs : '\n' ∉ s) : (length? s).isSome ↔ ')' ∈ s := by
  induction s with
  | nil => simp [length?]
  | cons c s ih =>
    simp only [List.mem_cons, not_or] at hs
    by_cases hc : c = ')'
    · simp [length?, hc]
    · simp [length?, hc, Ne.symm hs.1, Ne.symm hc, ih hs.2]

theorem mem_of_mem_dropClosedFrom {c : Char} (s : List Char) : ∀ {n : Nat},
    c ∈ dropClosedFrom n s → c ∈ s := by
  induction s with
  | nil => intro n h; cases n <;> exact h
  | cons d s ih =>
    intro n h
    cases n with
    | succ n => exact List.mem_cons_of_mem _ (ih h)
    | zero =>
      have hcons : c ∈ d :: dropClosedFrom 0 s → c ∈ d :: s := fun h =>
        (List.mem_cons.1 h).elim (fun h => h ▸ List.mem_cons_self)
          fun h => List.mem_cons_of_mem _ (ih h)
      rw [dropClosedFrom] at h
      split at h
      · split at h
        · exact List.mem_cons_of_mem _ (ih h)
        · exact hcons h
      · exact hcons h

theorem isLastLine_line {s : List Char} (hs : '\n' ∉ s) : isLastLine s = true := by
  have hall : s.dropWhile (· ≠ '\n') = [] := by
    rw [List.dropWhile_eq_nil_iff]
    intro c hc
    exact decide_eq_true fun h => hs (h ▸ hc)
  rw [isLastLine, hall]
  rfl

theorem compact_append (s t : List Char) :
    Line.compact (s ++ t) = Line.compact s ++ Line.compact t := List.filter_append ..

theorem compact_blanks {b : List Char} (hb : ∀ c ∈ b, isBlank c = true) : Line.compact b = [] :=
  List.filter_eq_nil_iff.2 fun c hc => by simp [hb c hc]

theorem compact_trim (s : List Char) : Line.compact (trim s) = Line.compact s := by
  obtain ⟨before, behind, hs, hbefore, hbehind⟩ := trim_surrounded s
  conv_rhs => rw [hs]
  rw [compact_append, compact_append, compact_blanks hbefore, compact_blanks hbehind,
    List.nil_append, List.append_nil]

/-- What the passes make of a character that begins no comment. -/
theorem compact_dropTrailing_cons {t : List Char} (ht : isLastLine t = true) (c : Char) :
    Line.compact (dropTrailing (c :: t)) = if c = ';' then [] else
      if isBlank c then Line.compact (dropTrailing t) else
        c :: Line.compact (dropTrailing t) := by
  rw [dropTrailing, ht]
  by_cases hc : c = ';'
  · simp [hc, Line.compact]
  · cases hblank : isBlank c <;> simp [hc, hblank, Line.compact]

/-- On one line the passes over comments and white space keep what the scanner keeps. -/
theorem compact_dropClosedFrom {s : List Char} (hs : '\n' ∉ s) :
    (∀ n, length? s = some n →
      Line.compact (dropTrailing (dropClosedFrom n s)) = kept true s) ∧
    Line.compact (dropTrailing (dropClosedFrom 0 s)) = kept false s := by
  induction s with
  | nil => exact ⟨nofun, rfl⟩
  | cons c s ih =>
    simp only [List.mem_cons, not_or] at hs
    obtain ⟨hinside, houtside⟩ := ih hs.2
    constructor
    · intro n hn
      rw [length?] at hn
      split at hn
      · rename_i hc
        cases hn
        rw [kept, decide_eq_false (not_not.2 hc)]
        exact houtside
      · rename_i hc
        rw [if_neg (Ne.symm hs.1)] at hn
        obtain ⟨n, hlength, rfl⟩ := Option.map_eq_some_iff.1 hn
        rw [kept, decide_eq_true hc]
        exact hinside n hlength
    · have hcons : Line.compact (dropTrailing (c :: dropClosedFrom 0 s)) =
          if c = ';' then [] else if isBlank c then kept false s else c :: kept false s := by
        have hlast : isLastLine (dropClosedFrom 0 s) = true :=
          isLastLine_line fun h => hs.2 (mem_of_mem_dropClosedFrom s h)
        rw [compact_dropTrailing_cons hlast, houtside]
      by_cases hc : c = '('
      · rw [dropClosedFrom, if_pos hc, kept]
        cases hlength : length? s with
        | some n =>
          have hmem : ')' ∈ s := (length?_isSome hs.2).1 (by rw [hlength]; rfl)
          rw [if_pos ⟨hc, hmem⟩]
          exact hinside n hlength
        | none =>
          have hmem : ')' ∉ s := fun h => by
            have := (length?_isSome hs.2).2 h
            rw [hlength] at this
            cases this
          rw [if_neg fun h => hmem h.2]
          exact hcons
      · rw [dropClosedFrom, if_neg hc, kept, if_neg fun h => hc h.1]
        exact hcons

theorem compact_bare {s : List Char} (hs : '\n' ∉ s) : Line.compact (Line.bare s) = kept false s := by
  rw [Line.bare, compact_trim]
  exact (compact_dropClosedFrom hs).2

/-- A trimmed text begins with a character that is kept. -/
theorem isDirective_compact_trim (s : List Char) :
    Line.isDirective (Line.compact (trim s)) = Line.isDirective (trim s) := by
  cases htrim : trim s with
  | nil => rfl
  | cons c t =>
    have hhead : isBlank c = false := by
      have hprefix : c :: t <+: s.dropWhile isBlank := htrim ▸ List.rdropWhile_prefix ..
      obtain ⟨u, hu⟩ := hprefix
      have := List.head?_dropWhile_not isBlank s
      rw [← hu] at this
      simpa using this
    rw [Line.compact, List.filter_cons, hhead]
    rfl

/-! ### What is found in the kept characters -/

/-- What is found in the characters that are kept. -/
def findingsOf (ks : List Char) : Findings :=
  if Line.isDirective ks then {}
  else ⟨(Scan.takeNumber (Scan.words ks)).1, (Scan.takeNumber (Scan.words ks)).2⟩

theorem numberOf?_eq_some {w : Word} {n : Int} :
    Scan.numberOf? w = some n ↔ w.letter = "N" ∧ w.value = .int n := by
  obtain ⟨letter, value⟩ := w
  rw [Scan.numberOf?]
  constructor
  · intro h
    split at h
    · rename_i hletter hvalue
      cases h
      exact ⟨hletter, hvalue⟩
    · cases h
  · rintro ⟨rfl, rfl⟩
    rfl

/-- A word that gives no number, or comes after one that did, is one of the other words. -/
theorem add_word {f : Findings} {w : Word} (h : f.number = none → Scan.numberOf? w = none) :
    f.add w = { f with words := f.words ++ [w] } := by
  rw [Findings.add]
  split
  · rename_i hw
    cases hvalue : w.value with
    | int n =>
      have hnumber := numberOf?_eq_some.2 ⟨hw.1, hvalue⟩
      rw [h hw.2] at hnumber
      cases hnumber
    | _ => rfl
  · rfl

theorem add_number {f : Findings} (hf : f.number = none) {w : Word} {n : Int}
    (hw : Scan.numberOf? w = some n) : f.add w = { f with number := some n } := by
  obtain ⟨hletter, hvalue⟩ := numberOf?_eq_some.1 hw
  rw [Findings.add, if_pos ⟨hletter, hf⟩, hvalue]

theorem foldl_add_numbered (ws : List Word) : ∀ {f : Findings}, f.number ≠ none →
    ws.foldl Findings.add f = { f with words := f.words ++ ws } := by
  induction ws with
  | nil => intro f _; rw [List.append_nil]; rfl
  | cons w ws ih =>
    intro f hf
    have hnext : ws.foldl Findings.add { f with words := f.words ++ [w] } =
        { f with words := f.words ++ [w] ++ ws } := ih hf
    rw [List.foldl_cons, add_word fun h => absurd h hf, hnext, List.append_assoc]
    rfl

/-- The first number of a line is taken out of its words. -/
theorem foldl_add (ws : List Word) : ∀ {f : Findings}, f.number = none →
    ws.foldl Findings.add f =
      ⟨(Scan.takeNumber ws).1, f.words ++ (Scan.takeNumber ws).2⟩ := by
  induction ws with
  | nil =>
    intro f hf
    rw [Scan.takeNumber, List.append_nil, ← hf]
    rfl
  | cons w ws ih =>
    intro f hf
    rw [List.foldl_cons, Scan.takeNumber]
    cases hw : Scan.numberOf? w with
    | none =>
      have hnext : ws.foldl Findings.add { f with words := f.words ++ [w] } =
          ⟨(Scan.takeNumber ws).1, f.words ++ [w] ++ (Scan.takeNumber ws).2⟩ := ih hf
      rw [add_word fun _ => hw, hnext, List.append_assoc]
      rfl
    | some n =>
      rw [add_number hf hw, foldl_add_numbered ws (Option.some_ne_none n)]

theorem isAlpha_iff {c : Char} : c.isAlpha = true ↔
    (65 ≤ c.toNat ∧ c.toNat ≤ 90) ∨ (97 ≤ c.toNat ∧ c.toNat ≤ 122) := by
  simp [Char.isAlpha, Char.isUpper, Char.isLower, UInt32.le_iff_toNat_le]

/-- The characters of values come before the letters. -/
theorem toNat_le_of_isValueChar {c : Char} (h : Scan.isValueChar c = true) : c.toNat ≤ 57 := by
  simp only [Scan.isValueChar, Char.isDigit, Bool.or_eq_true, Bool.and_eq_true,
    decide_eq_true_eq, beq_iff_eq] at h
  rcases h with ((⟨-, h⟩ | rfl) | rfl) | rfl
  · exact h
  all_goals decide

theorem isAlpha_of_isValueChar {c : Char} (h : Scan.isValueChar c = true) :
    c.isAlpha = false := by
  rw [Bool.eq_false_iff]
  intro halpha
  have hle := toNat_le_of_isValueChar h
  have := isAlpha_iff.1 halpha
  omega

namespace Scanner

open Scan

/-- A character that is no letter begins no word. -/
theorem words_cons_of_not_alpha {c : Char} (hc : c.isAlpha = false) (ks : List Char) :
    words (c :: ks) = words ks := by
  rw [words, hc]
  rfl

/-- Inside a word the scanner will add it with the rest of its value, and then what follows; between
words it will add what follows. -/
theorem foldl_keep (ks : List Char) : ∀ f : Findings,
    ((ks.foldl keep ⟨.idle, f⟩).close = (words ks).foldl Findings.add f) ∧
    ∀ letter value, (ks.foldl keep ⟨.word letter value, f⟩).close =
      (words ks).foldl Findings.add (close ⟨.word letter (value ++ ks.takeWhile isValueChar), f⟩) := by
  induction ks with
  | nil =>
    refine fun f => ⟨rfl, fun letter value => ?_⟩
    rw [List.takeWhile_nil, List.append_nil]
    rfl
  | cons c ks ih =>
    -- what the scanner does with a character that may begin a word
    have hbegin : ∀ f : Findings, (ks.foldl keep ⟨begin c, f⟩).close =
        (words (c :: ks)).foldl Findings.add f := by
      intro f
      cases hc : c.isAlpha with
      | false =>
        rw [begin, hc, words_cons_of_not_alpha hc]
        exact (ih f).1
      | true =>
        rw [begin, hc, if_pos rfl, (ih f).2, List.nil_append, words, hc, Bool.true_and]
        cases ks with
        | nil => rfl
        | cons d ks =>
          cases hd : isValueChar d <;>
            simp [startsValue, hd, close]
    intro f
    refine ⟨hbegin f, fun letter value => ?_⟩
    cases hc : isValueChar c with
    | true =>
      have hkeep : keep ⟨.word letter value, f⟩ c = ⟨.word letter (value ++ [c]), f⟩ := by
        simp only [keep, hc, if_true]
      rw [List.foldl_cons, hkeep, (ih f).2, List.takeWhile_cons_of_pos hc,
        words_cons_of_not_alpha (isAlpha_of_isValueChar hc), List.append_assoc]
      rfl
    | false =>
      have hkeep : keep ⟨.word letter value, f⟩ c =
          ⟨begin c, close ⟨.word letter value, f⟩⟩ := by
        simp [keep, hc]
      rw [List.foldl_cons, hkeep, hbegin, List.takeWhile_cons_of_neg (by simp [hc]),
        List.append_nil]

/-- In a directive nothing is found. -/
theorem foldl_keep_directive (ks : List Char) (f : Findings) :
    (ks.foldl keep ⟨.directive, f⟩).close = f := by
  induction ks with
  | nil => rfl
  | cons c ks ih => exact ih

/-- The scanner finds the words of the characters it keeps. -/
theorem foldl_keep_fresh (ks : List Char) : (ks.foldl keep {}).close = findingsOf ks := by
  have hfound : ∀ ks : List Char, (ks.foldl keep ⟨.idle, {}⟩).close =
      ⟨(takeNumber (words ks)).1, (takeNumber (words ks)).2⟩ := by
    intro ks
    rw [(foldl_keep ks {}).1, foldl_add _ rfl]
    rfl
  cases ks with
  | nil => rfl
  | cons c ks =>
    rw [findingsOf, ← hfound]
    by_cases hc : c = '%' ∨ c = '$'
    · have hdirective : Line.isDirective (c :: ks) = true := by simpa [Line.isDirective] using hc
      rw [List.foldl_cons, hdirective, if_pos rfl]
      simp only [keep, if_pos hc]
      exact foldl_keep_directive ks {}
    · have hdirective : Line.isDirective (c :: ks) = false := by simpa [Line.isDirective] using hc
      rw [List.foldl_cons, hdirective]
      simp only [keep, if_neg hc]
      rfl

end Scanner

theorem scanLine_eq (text : List Char) : scanLine text = findingsOf (kept false text) := by
  rw [scanLine, Scanner.scan_eq_kept, Scanner.foldl_keep_fresh]

/-! ### Checksums -/

theorem isDecimalDigit_iff {c : Char} : isDecimalDigit c = true ↔
    ∃ z ∈ digitZeros, z ≤ c.toNat ∧ c.toNat < z + 10 := by
  simp [isDecimalDigit, digitValue?]

theorem isBlank_iff {c : Char} : isBlank c = true ↔
    ∃ r ∈ blankRanges, r.1 ≤ c.toNat ∧ c.toNat ≤ r.2 := by
  simp [isBlank, Ranges.has]

/-- A digit is no letter and is kept by the scanner. -/
theorem digit_plain {c : Char} (hc : isDecimalDigit c = true) : c.isAlpha = false ∧ IsPlain c := by
  obtain ⟨z, hz, hlow, hhigh⟩ := isDecimalDigit_iff.1 hc
  -- the ten digits of a script lie between the ranges of white space, and beyond the letters
  -- or where ASCII has its own
  have hapart : ∀ z ∈ digitZeros, (∀ r ∈ blankRanges, r.2 < z ∨ z + 10 ≤ r.1) ∧
      (z = 48 ∨ 122 < z) := by decide
  obtain ⟨hblank, hrange⟩ := hapart z hz
  have hne : ∀ {d : Char}, d.toNat < 48 ∨ 57 < d.toNat ∧ d.toNat ≤ 122 → c ≠ d := by
    rintro d hd rfl
    omega
  refine ⟨?_, ?_, hne (by decide), hne (by decide), hne (by decide)⟩
  · rw [Bool.eq_false_iff]
    intro halpha
    have := isAlpha_iff.1 halpha
    omega
  · rw [Bool.eq_false_iff]
    intro h
    obtain ⟨r, hr, hr1, hr2⟩ := isBlank_iff.1 h
    have := hblank r hr
    omega

theorem plain_checksum {digits : List Char} (hdigits : ∀ c ∈ digits, isDecimalDigit c = true) :
    ∀ c ∈ '*' :: digits, IsPlain c := by
  intro c hc
  rcases List.mem_cons.1 hc with rfl | hc
  · exact ⟨by decide, by decide, by decide, by decide⟩
  · exact (digit_plain (hdigits c hc)).2

/-- A text without letters adds no words behind a star. -/
theorem words_append_star {t : List Char} (ht : ∀ c ∈ t, c.isAlpha = false) (ks : List Char) :
    Scan.words (ks ++ '*' :: t) = Scan.words ks := by
  induction ks with
  | nil =>
    rw [List.nil_append, Scanner.words_cons_of_not_alpha (by decide)]
    induction t with
    | nil => rfl
    | cons c t ih =>
      obtain ⟨hc, ht⟩ := List.forall_mem_cons.1 ht
      rw [Scanner.words_cons_of_not_alpha hc, ih ht]
  | cons c ks ih =>
    have hstar : Scan.isValueChar '*' = false := by decide
    have hstarts : Scan.startsValue (ks ++ '*' :: t) = Scan.startsValue ks := by
      cases ks with
      | nil => exact hstar
      | cons d ks => rfl
    have hvalue : (ks ++ '*' :: t).takeWhile Scan.isValueChar = ks.takeWhile Scan.isValueChar := by
      rw [List.takeWhile_append]
      split
      · rename_i hlength
        rw [List.takeWhile_cons_of_neg (by simp [hstar]), List.append_nil]
        exact (List.takeWhile_prefix _).eq_of_length hlength |>.symm
      · rfl
    rw [List.cons_append, Scan.words, Scan.words, hstarts, hvalue, ih]

/-- A checksum makes no difference to what is found. -/
theorem scanLine_checksum {digits : List Char} (hdigits : ∀ c ∈ digits, isDecimalDigit c = true)
    (s : List Char) : scanLine (s ++ '*' :: digits) = scanLine s := by
  rw [scanLine_eq, scanLine_eq]
  rcases kept_append_plain (plain_checksum hdigits) s false with h | h
  · rw [h]
  · have hdirective : ∀ ks, Line.isDirective (ks ++ '*' :: digits) = Line.isDirective ks := by
      intro ks
      cases ks <;> rfl
    rw [h, findingsOf, findingsOf, hdirective,
      words_append_star fun c hc => (digit_plain (hdigits c hc)).1]

/-- What is split from a line is a star and digits. -/
theorem Checksum.split?_eq {s body digits : List Char} (h : split? s = some (body, digits)) :
    s = body ++ '*' :: digits := by
  rw [split?] at h
  split at h
  · rename_i back hback
    split at h
    · cases h
    · cases h
      have hs := List.takeWhile_append_dropWhile (p := isDecimalDigit) (l := s.reverse)
      rw [hback] at hs
      have := congrArg List.reverse hs
      rw [List.reverse_reverse, List.reverse_append, List.reverse_cons, List.append_assoc] at this
      exact this.symm
  · cases h

/-- Taking off the checksum of a line makes no difference to what is found. -/
theorem scanLine_take {s body : List Char} {checksum : Option Checksum}
    (h : Checksum.take s = .ok (body, checksum)) :
    (∃ t, s = body ++ t) ∧ scanLine body = scanLine s := by
  cases hsplit : Checksum.split? s with
  | none =>
    rw [Checksum.take, hsplit] at h
    cases h
    exact ⟨⟨[], (List.append_nil _).symm⟩, rfl⟩
  | some p =>
    obtain ⟨cut, digits⟩ := p
    have hbody : body = cut := by
      obtain ⟨n, htake⟩ := Checksum.take_of_split hsplit
      rw [htake] at h
      split at h
      · cases h
      · cases h
        rfl
    subst hbody
    have hs := Checksum.split?_eq hsplit
    refine ⟨⟨'*' :: digits, hs⟩, ?_⟩
    conv_rhs => rw [hs]
    rw [scanLine_checksum (Checksum.split?_digits hsplit).2]

/-- What is left of a line without its checksum is on one line, too. -/
theorem not_mem_of_take {text body : List Char} {checksum : Option Checksum} (hbreak : '\n' ∉ text)
    (htake : Checksum.take (trim text) = .ok (body, checksum)) : '\n' ∉ body := by
  obtain ⟨⟨t, hprefix⟩, -⟩ := scanLine_take htake
  intro hmem
  obtain ⟨before, behind, hsurrounded, -, -⟩ := trim_surrounded text
  refine hbreak ?_
  rw [hsurrounded, hprefix]
  simp [hmem]

/-- What is read leniently is what the scanner finds. -/
theorem scanLine_of_parse {text : List Char} (hbreak : '\n' ∉ text) {place : Option Int} {l : Line}
    (h : Line.parse false text place = .ok (some l)) : scanLine text = ⟨l.number, l.words⟩ := by
  rw [Line.parse] at h
  split at h
  · cases h
  cases htake : Checksum.take (trim text) with
  | error f =>
    rw [htake] at h
    cases h
  | ok p =>
    obtain ⟨body, checksum⟩ := p
    obtain ⟨-, hscan⟩ := scanLine_take htake
    have hbody := not_mem_of_take hbreak htake
    have hfound : scanLine text = findingsOf (Line.compact (Line.bare body)) := by
      rw [compact_bare hbody, ← scanLine_eq, hscan, scanLine_eq, scanLine_eq, kept_trim]
    have hdirective : Line.isDirective (Line.compact (Line.bare body)) =
        Line.isDirective (Line.bare body) := isDirective_compact_trim _
    rw [hfound, findingsOf, hdirective]
    rw [htake] at h
    dsimp only at h
    split at h
    · rename_i hempty
      cases h
      rw [List.isEmpty_iff.1 hempty]
      rfl
    split at h
    · rename_i hdir
      cases h
      rw [hdir]
      rfl
    · rename_i hdir
      cases h
      rw [Bool.eq_false_iff.2 hdir]
      rfl

/-! ### Case -/

/-- Raising the case stays in a class of characters or outside it if no letter is in it. -/
theorem toUpper_class {p : Char → Bool} (hp : ∀ c : Char, c.isAlpha = true → p c = false)
    (c : Char) : p c.toUpper = p c := by
  cases hc : c.isAlpha with
  | true => rw [hp c hc, hp c.toUpper (by simpa using hc)]
  | false =>
    have hlower : ¬ c.isLower = true := by
      rw [Char.isAlpha, Bool.or_eq_false_iff] at hc
      simp [hc.2]
    rw [Char.toUpper_eq_of_not_isLower hlower]

theorem toUpper_eq_iff {d : Char} (hd : d.isAlpha = false) (c : Char) : c.toUpper = d ↔ c = d := by
  have h := toUpper_class (p := (· == d)) (fun c hc => by
    rw [beq_eq_false_iff_ne]
    rintro rfl
    rw [hc] at hd
    cases hd) c
  simpa using h

theorem isBlank_of_isAlpha {c : Char} (hc : c.isAlpha = true) : isBlank c = false := by
  have hapart : ∀ r ∈ blankRanges, r.2 < 65 ∨ 122 < r.1 := by decide
  rw [Bool.eq_false_iff]
  intro h
  obtain ⟨r, hr, hr1, hr2⟩ := isBlank_iff.1 h
  have := hapart r hr
  have := isAlpha_iff.1 hc
  omega

theorem kept_map_toUpper (s : List Char) : ∀ inComment,
    kept inComment (s.map Char.toUpper) = (kept inComment s).map Char.toUpper := by
  induction s with
  | nil => intro inComment; cases inComment <;> rfl
  | cons c s ih =>
    intro inComment
    cases inComment with
    | true => simp only [List.map_cons, kept, toUpper_eq_iff (d := ')') (by decide), ne_eq, ih]
    | false =>
      have hmem : ')' ∈ s.map Char.toUpper ↔ ')' ∈ s := by
        simp [toUpper_eq_iff (d := ')') (by decide)]
      simp only [List.map_cons, kept, toUpper_eq_iff (d := '(') (by decide),
        toUpper_eq_iff (d := ';') (by decide), hmem, toUpper_class fun _ => isBlank_of_isAlpha, ih]
      split
      · rfl
      split
      · rfl
      split <;> rfl

theorem isValueChar_of_isAlpha {c : Char} (hc : c.isAlpha = true) : Scan.isValueChar c = false := by
  rw [Bool.eq_false_iff]
  intro h
  rw [isAlpha_of_isValueChar h] at hc
  cases hc

/-- Values have no letters. -/
theorem takeWhile_map_toUpper (s : List Char) :
    (s.map Char.toUpper).takeWhile Scan.isValueChar = s.takeWhile Scan.isValueChar := by
  induction s with
  | nil => rfl
  | cons c s ih =>
    have hsame := toUpper_class (fun _ => isValueChar_of_isAlpha) c
    rw [List.map_cons, List.takeWhile_cons, List.takeWhile_cons, hsame, ih]
    cases hc : Scan.isValueChar c with
    | false => rfl
    | true =>
      have hlower : ¬ c.isLower = true := by
        have halpha := isAlpha_of_isValueChar hc
        rw [Char.isAlpha, Bool.or_eq_false_iff] at halpha
        simp [halpha.2]
      rw [if_pos rfl, if_pos rfl, Char.toUpper_eq_of_not_isLower hlower]

theorem words_map_toUpper (s : List Char) : Scan.words (s.map Char.toUpper) = Scan.words s := by
  induction s with
  | nil => rfl
  | cons c s ih =>
    have hstarts : Scan.startsValue (s.map Char.toUpper) = Scan.startsValue s := by
      cases s with
      | nil => rfl
      | cons d s => exact toUpper_class (fun _ => isValueChar_of_isAlpha) d
    rw [List.map_cons, Scan.words, Scan.words, Char.isAlpha_toUpper_eq_isAlpha,
      Char.toUpper_toUpper_eq_toUpper, hstarts, takeWhile_map_toUpper, ih]

/-- Raising the case makes no difference to what is found. -/
theorem scanLine_map_toUpper (s : List Char) : scanLine (s.map Char.toUpper) = scanLine s := by
  have hdirective : ∀ ks : List Char,
      Line.isDirective (ks.map Char.toUpper) = Line.isDirective ks := by
    intro ks
    cases ks with
    | nil => rfl
    | cons c ks =>
      exact toUpper_class (p := fun c => c == '%' || c == '$')
        (fun c hc => by
          rw [Bool.or_eq_false_iff, beq_eq_false_iff_ne, beq_eq_false_iff_ne]
          constructor <;> (rintro rfl; exact absurd hc (by decide))) c
  rw [scanLine_eq, scanLine_eq, kept_map_toUpper, findingsOf, findingsOf, hdirective,
    words_map_toUpper]

/-! ### Further text -/

/-- Changes to a line that have no meaning. -/
inductive Retouched : List Char → List Char → Prop where
  | blank {c : Char} (hc : isBlank c = true) (s t : List Char) : Retouched (s ++ t) (s ++ c :: t)
  | cased {s t : List Char} (h : s.map Char.toUpper = t.map Char.toUpper) : Retouched s t
  | comment {s x : List Char} (hs : ¬ LeftOpen s) (hx : ')' ∉ x) (t : List Char) :
    Retouched (s ++ t) (s ++ '(' :: (x ++ ')' :: t))
  | checksum {digits : List Char} (hne : digits ≠ [])
    (hdigits : ∀ c ∈ digits, isDecimalDigit c = true) (s : List Char) :
    Retouched s (s ++ '*' :: digits)

theorem Retouched.scanLine_eq {s t : List Char} (h : Retouched s t) : scanLine s = scanLine t := by
  cases h with
  | blank hc s t => rw [Gcode.scanLine_eq, Gcode.scanLine_eq, kept_blank hc]
  | cased h => rw [← scanLine_map_toUpper, h, scanLine_map_toUpper]
  | comment hs hx t => rw [Gcode.scanLine_eq, Gcode.scanLine_eq, kept_comment hx t _ hs false nofun]
  | checksum hne hdigits s => exact (scanLine_checksum hdigits s).symm

/-- However often a line is retouched or restored, the scanner finds the same. -/
theorem scanLine_eq_of_retouched {s t : List Char} (h : Relation.EqvGen Retouched s t) :
    scanLine s = scanLine t := by
  induction h with
  | rel s t h => exact h.scanLine_eq
  | refl => rfl
  | symm s t _ ih => exact ih.symm
  | trans s t u _ _ ih₁ ih₂ => exact ih₁.trans ih₂

/-- Reading a line leniently finds the words and the number that the scanner finds. White space that
is added or taken away, letters in the other case, comments where none is open and checksums make no
difference to them. -/
theorem parse_eq_scanLine {text : List Char} (hbreak : '\n' ∉ text) {place : Option Int} {l : Line}
    (h : Line.parse false text place = .ok (some l)) :
    scanLine text = ⟨l.number, l.words⟩ ∧
      ∀ text' place' l', '\n' ∉ text' → Relation.EqvGen Retouched text text' →
        Line.parse false text' place' = .ok (some l') →
          l'.words = l.words ∧ l'.number = l.number := by
  have hscan := scanLine_of_parse hbreak h
  refine ⟨hscan, fun text' place' l' hbreak' hretouched h' => ?_⟩
  have hscan' := scanLine_of_parse hbreak' h'
  rw [← scanLine_eq_of_retouched hretouched, hscan] at hscan'
  rw [Findings.mk.injEq] at hscan'
  exact ⟨hscan'.2.symm, hscan'.1.symm⟩

/-- A line with a word that a comment cuts in two, another comment that begins inside that one, and a
wrong checksum; then the same line in upper case and without the white space at its front. -/
theorem parse_eq_scanLine_halved :
    ∃ l l', Line.parse false (' ' :: "n10 G(a;(b)1x-5 ;c*7".toList) (some 3) = .ok (some l) ∧
      Line.parse false "N10 G(A;(B)1X-5 ;C*7".toList none = .ok (some l') ∧
      scanLine (' ' :: "n10 G(a;(b)1x-5 ;c*7".toList) = ⟨l.number, l.words⟩ ∧
      l'.words = l.words ∧ l'.number = l.number ∧ l.number = some 10 ∧
      l.words = [⟨"G", .int 1⟩, ⟨"X", .int (-5)⟩] := by
  let l : Line :=
    { text := "n10 G(a;(b)1x-5 ;c*7", words := [⟨"G", .int 1⟩, ⟨"X", .int (-5)⟩], number := some 10
      checksum := some ⟨7, checksumOf "n10 G(a;(b)1x-5 ;c".toList⟩, sourceLine := some 3 }
  let l' : Line :=
    { l with
      text := "N10 G(A;(B)1X-5 ;C*7", sourceLine := none
      checksum := some ⟨7, checksumOf "N10 G(A;(B)1X-5 ;C".toList⟩ }
  have hparse : Line.parse false (' ' :: "n10 G(a;(b)1x-5 ;c*7".toList) (some 3) =
      .ok (some l) := by decide +kernel
  have hparse' : Line.parse false "N10 G(A;(B)1X-5 ;C*7".toList none = .ok (some l') := by
    decide +kernel
  have hretouched : Relation.EqvGen Retouched (' ' :: "n10 G(a;(b)1x-5 ;c*7".toList)
      "N10 G(A;(B)1X-5 ;C*7".toList :=
    .trans _ _ _ (.symm _ _ (.rel _ _ (.blank (by decide) [] _))) (.rel _ _ (.cased (by decide)))
  obtain ⟨hscan, hsame⟩ := parse_eq_scanLine (by decide) hparse
  obtain ⟨hwords, hnumber⟩ := hsame _ none l' (by decide) hretouched hparse'
  exact ⟨l, l', hparse, hparse', hscan, hwords, hnumber, rfl, rfl⟩

end Gcode
