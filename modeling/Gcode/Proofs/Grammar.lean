import Gcode.Proofs.OnePass

/-!
The grammar of strict reading. Strict reading decides about a line by what is left of it when all
words are deleted. Here the lines that it accepts are described without deleting anything: what
remains of the line without its checksum, its comments and its white space is a sequence of words,
or it belongs to a directive, or there is nothing. Main statement: strict reading refuses exactly
the lines that are not so and those with a checksum that is too long, and otherwise it gives what
lenient reading gives, for single lines and for documents (`strict_accepts`).
-/

namespace Gcode

open Gcode.Text

/-! ### Sequences of words -/

namespace Scan

/-- A text that is one word: a letter, and behind it a run of value characters. -/
def IsWordText (s : List Char) : Prop :=
  ∃ letter value, s = letter :: value ∧ letter.isAlpha = true ∧ value ≠ [] ∧
    ∀ c ∈ value, isValueChar c = true

/-- A text that is made of words and of nothing else. -/
def IsWordSequence (s : List Char) : Prop :=
  ∃ items : List (List Char), (∀ x ∈ items, IsWordText x) ∧ s = items.flatten

theorem isWordSequence_nil : IsWordSequence [] := ⟨[], by simp, rfl⟩

/-- A sequence of words begins with no value character. -/
theorem IsWordSequence.dropWhile_eq {s : List Char} (h : IsWordSequence s) :
    s.dropWhile isValueChar = s := by
  obtain ⟨items, hitems, rfl⟩ := h
  cases items with
  | nil => rfl
  | cons x items =>
    obtain ⟨letter, value, rfl, hletter, -, -⟩ := hitems x List.mem_cons_self
    exact List.dropWhile_cons_of_neg (by simp [isValueChar_of_isAlpha hletter])

/-- A sequence of words begins with a letter and all value characters behind it, of which there must
be one; then the sequence goes on. -/
theorem isWordSequence_cons {c : Char} {s : List Char} : IsWordSequence (c :: s) ↔
    c.isAlpha = true ∧ startsValue s = true ∧ IsWordSequence (s.dropWhile isValueChar) := by
  constructor
  · rintro ⟨items, hitems, hs⟩
    cases items with
    | nil => cases hs
    | cons x items =>
      obtain ⟨⟨letter, value, rfl, hletter, hvalue, hall⟩, hrest⟩ := List.forall_mem_cons.1 hitems
      obtain ⟨rfl, rfl⟩ := List.cons.inj hs
      obtain ⟨d, value, rfl⟩ := List.exists_cons_of_ne_nil hvalue
      have hsequence : IsWordSequence items.flatten := ⟨items, hrest, rfl⟩
      refine ⟨hletter, hall d List.mem_cons_self, ?_⟩
      have hdrop : ((d :: value) ++ items.flatten).dropWhile isValueChar = items.flatten := by
        rw [List.dropWhile_append_of_pos hall, hsequence.dropWhile_eq]
      show IsWordSequence (((d :: value) ++ items.flatten).dropWhile isValueChar)
      rw [hdrop]
      exact hsequence
  · rintro ⟨hletter, hstarts, items, hitems, hrest⟩
    have hvalue : s.takeWhile isValueChar ≠ [] := by
      cases s with
      | nil => cases hstarts
      | cons d s =>
        have hd : isValueChar d = true := hstarts
        rw [List.takeWhile_cons_of_pos hd]
        exact List.cons_ne_nil _ _
    refine ⟨(c :: s.takeWhile isValueChar) :: items, List.forall_mem_cons.2 ⟨?_, hitems⟩, ?_⟩
    · exact ⟨c, _, rfl, hletter, hvalue, fun d hd => List.mem_takeWhile_imp hd⟩
    · rw [List.flatten_cons, ← hrest, List.cons_append, List.takeWhile_append_dropWhile]

/-- Nothing is stray exactly in sequences of words. Inside a word the rest of its value comes
first. -/
theorem strays_eq_nil (s : List Char) : (strays false s = [] ↔ IsWordSequence s) ∧
    (strays true s = [] ↔ IsWordSequence (s.dropWhile isValueChar)) := by
  induction s with
  | nil => exact ⟨by simp [strays, isWordSequence_nil], by simp [strays, isWordSequence_nil]⟩
  | cons c s ih =>
    cases hc : isValueChar c with
    | true =>
      have halpha : ¬ c.isAlpha = true := by simp [isAlpha_of_isValueChar hc]
      constructor
      · simp [strays, hc, isWordSequence_cons, halpha]
      · rw [strays, hc, if_pos rfl, if_pos rfl, List.dropWhile_cons_of_pos hc]
        exact ih.2
    | false =>
      have houtside : strays false (c :: s) = [] ↔ IsWordSequence (c :: s) := by
        rw [isWordSequence_cons, ← ih.2, strays, hc]
        by_cases hword : c.isAlpha = true ∧ startsValue s = true
        · simp [hword]
        · simp only [Bool.false_eq_true, if_false, Bool.and_eq_true, if_neg hword,
            List.cons_ne_nil, false_iff]
          exact fun h => hword ⟨h.1, h.2.1⟩
      -- a character that is part of no value ends a word
      have hends : strays true (c :: s) = strays false (c :: s) := by
        simp only [strays, hc, Bool.false_eq_true, if_false]
      rw [hends, List.dropWhile_cons_of_neg (by simp [hc])]
      exact ⟨houtside, houtside⟩

instance : DecidablePred IsWordSequence := fun s => decidable_of_iff _ (strays_eq_nil s).1

end Scan

/-! ### What remains of a line -/

/-- A text that ends in a checksum: a star, and digits behind it. -/
structure Checksum.Ends (s body digits : List Char) : Prop where
  eq : s = body ++ '*' :: digits
  digits_ne_nil : digits ≠ []
  isDecimalDigit : ∀ c ∈ digits, isDecimalDigit c = true

theorem Checksum.split?_eq_some_iff {s body digits : List Char} :
    split? s = some (body, digits) ↔ Ends s body digits := by
  constructor
  · intro h
    exact ⟨split?_eq h, (split?_digits h).1, (split?_digits h).2⟩
  · rintro ⟨rfl, hne, hdigits⟩
    exact split?_append body hne hdigits

namespace Line

/-- What remains of a line without its checksum, if it has one, its comments and its white space. -/
inductive Remains (text : List Char) : List Char → Prop where
  | sealed {body digits : List Char} (h : Checksum.Ends (trim text) body digits) :
    Remains text (kept false body)
  | plain (h : ∀ body digits, ¬ Checksum.Ends (trim text) body digits) :
    Remains text (kept false (trim text))

/-- A line with text that is neither a directive nor a sequence of words. -/
def Stray (text : List Char) : Prop :=
  ∃ s, Remains text s ∧ s ≠ [] ∧ s.head? ≠ some '%' ∧ s.head? ≠ some '$' ∧ ¬ Scan.IsWordSequence s

/-- A line with a checksum of more digits than a numeral may have. -/
theorem overlong_iff {text : List Char} : Overlong text ↔
    ∃ body digits, Checksum.Ends (trim text) body digits ∧ 4300 < digits.length := by
  constructor
  · rintro ⟨⟨body, digits⟩, hsplit, hlong⟩
    exact ⟨body, digits, Checksum.split?_eq_some_iff.1 hsplit, hlong⟩
  · rintro ⟨body, digits, hends, hlong⟩
    exact ⟨(body, digits), Checksum.split?_eq_some_iff.2 hends, hlong⟩

variable {text body : List Char} {checksum : Option Checksum}

/-- The text that remains of a line. -/
def remainder (text : List Char) : List Char :=
  match Checksum.split? (trim text) with
  | some (body, _) => kept false body
  | none => kept false (trim text)

/-- One text remains of every line. -/
theorem remains_iff {s : List Char} : Remains text s ↔ s = remainder text := by
  rw [remainder]
  cases hsplit : Checksum.split? (trim text) with
  | none =>
    have hplain : ∀ body digits, ¬ Checksum.Ends (trim text) body digits := by
      intro body digits hends
      rw [Checksum.split?_eq_some_iff.2 hends] at hsplit
      cases hsplit
    constructor
    · rintro (⟨hends⟩ | _)
      · exact absurd hends (hplain _ _)
      · rfl
    · rintro rfl
      exact .plain hplain
  | some p =>
    have hsealed := Checksum.split?_eq_some_iff.1 hsplit
    constructor
    · rintro (⟨hends⟩ | hplain)
      · rw [Checksum.split?_eq_some_iff.2 hends] at hsplit
        cases hsplit
        rfl
      · exact absurd hsealed (hplain _ _)
    · rintro rfl
      exact .sealed hsealed

theorem stray_iff : Stray text ↔ remainder text ≠ [] ∧ isDirective (remainder text) = false ∧
    ¬ Scan.IsWordSequence (remainder text) := by
  have hdirective : ∀ s : List Char, isDirective s = false ↔
      s.head? ≠ some '%' ∧ s.head? ≠ some '$' := by
    intro s
    cases s with
    | nil => simp [isDirective]
    | cons c s => simp [isDirective]
  simp only [Stray, remains_iff, exists_eq_left, hdirective, and_assoc]

instance : DecidablePred Stray := fun _ => decidable_of_iff _ stray_iff.symm

/-- Reading looks at what remains of a line. -/
theorem remainder_of_take (h : Checksum.take (trim text) = .ok (body, checksum)) :
    remainder text = kept false body := by
  rw [remainder]
  cases hsplit : Checksum.split? (trim text) with
  | none =>
    rw [Checksum.take, hsplit] at h
    cases h
    rfl
  | some p =>
    obtain ⟨n, htake⟩ := Checksum.take_of_split hsplit
    rw [htake] at h
    split at h
    · cases h
    · cases h
      rfl

/-! ### Reading a line -/

theorem compact_bare_eq_nil (s : List Char) : compact (bare s) = [] ↔ bare s = [] := by
  rw [bare, compact_trim, trim_eq_nil_iff, compact, List.filter_eq_nil_iff, hasInk,
    List.any_eq_false]

/-- A line whose checksum can be read is read leniently, and strictly with the same result unless it
has stray text. -/
theorem parse_of_take (hbreak : '\n' ∉ text)
    (htake : Checksum.take (trim text) = .ok (body, checksum)) (place : Option Int) :
    ∃ line?, parse false text place = .ok line? ∧
      (Stray text → parse true text place = .error (.unexpectedText
        (String.ofList (Scan.strays false (kept false body))) (String.ofList (trim text)) place)) ∧
      (¬ Stray text → parse true text place = .ok line?) := by
  have hkept : kept false body = compact (bare body) :=
    (compact_bare (not_mem_of_take hbreak htake)).symm
  have hdirective : isDirective (compact (bare body)) = isDirective (bare body) :=
    isDirective_compact_trim _
  rw [stray_iff, remainder_of_take htake, hkept, hdirective, Ne, compact_bare_eq_nil,
    ← (Scan.strays_eq_nil _).1]
  simp only [parse, htake]
  by_cases hraw : (trim text).isEmpty = true
  · have hbody : bare body = [] := by
      rw [List.isEmpty_iff.1 hraw] at htake
      cases htake
      rfl
    simp [hraw, hbody]
  by_cases hcontent : bare body = []
  · simp [hraw, hcontent]
  by_cases hdir : isDirective (bare body) = true
  · simp [hraw, hcontent, hdir]
  · simp [hraw, hcontent, hdir]

/-- A line with a checksum that is too long or with stray text. -/
def Rejected (text : List Char) : Prop := Overlong text ∨ Stray text

instance : DecidablePred Rejected := fun _ => inferInstanceAs (Decidable (_ ∨ _))

theorem parse_stray (hbreak : '\n' ∉ text) (hshort : ¬ Overlong text) (hstray : Stray text)
    (place : Option Int) :
    ∃ stray raw, parse true text place = .error (.unexpectedText stray raw place) := by
  obtain ⟨⟨body, checksum⟩, htake⟩ := take_of_not_overlong hshort
  obtain ⟨-, -, hrefused, -⟩ := parse_of_take hbreak htake place
  exact ⟨_, _, hrefused hstray⟩

theorem parse_accepted (hbreak : '\n' ∉ text) (h : ¬ Rejected text) (place : Option Int) :
    ∃ line?, parse true text place = .ok line? ∧ parse false text place = .ok line? := by
  obtain ⟨hshort, hclean⟩ := not_or.1 h
  obtain ⟨⟨body, checksum⟩, htake⟩ := take_of_not_overlong hshort
  obtain ⟨line?, hlenient, -, hstrict⟩ := parse_of_take hbreak htake place
  exact ⟨line?, hstrict hclean, hlenient⟩

/-- A line that is rejected is refused, and no other. -/
theorem rejected_of_error (hbreak : '\n' ∉ text) {place : Option Int} {f : Fault}
    (h : parse true text place = .error f) :
    Overlong text ∧ f.kind = .value ∨ ¬ Overlong text ∧ Stray text ∧ f.kind = .tokenize := by
  by_cases hlong : Overlong text
  · obtain ⟨digits, refusal, hf⟩ := parse_overlong hlong true place
    rw [hf] at h
    cases h
    exact .inl ⟨hlong, rfl⟩
  by_cases hstray : Stray text
  · obtain ⟨stray, raw, hf⟩ := parse_stray hbreak hlong hstray place
    rw [hf] at h
    cases h
    exact .inr ⟨hlong, hstray, rfl⟩
  · obtain ⟨line?, hf, -⟩ := parse_accepted hbreak (not_or.2 ⟨hlong, hstray⟩) place
    rw [hf] at h
    cases h

theorem parse_rejected (hbreak : '\n' ∉ text) (h : Rejected text) (place : Option Int) :
    ∃ f, parse true text place = .error f := by
  by_cases hlong : Overlong text
  · obtain ⟨digits, refusal, hf⟩ := parse_overlong hlong true place
    exact ⟨_, hf⟩
  · obtain ⟨stray, raw, hf⟩ := parse_stray hbreak hlong (h.resolve_left hlong) place
    exact ⟨_, hf⟩

/-- Strict reading refuses a line with a fault of the value if its checksum is too long, else with a
fault of the text if it has stray text, and never otherwise. -/
theorem parse_strict (hbreak : '\n' ∉ text) (place : Option Int) :
    ((∃ f, parse true text place = .error f ∧ f.kind = .value) ↔ Overlong text) ∧
      (¬ Overlong text →
        ((∃ f, parse true text place = .error f ∧ f.kind = .tokenize) ↔ Stray text)) := by
  constructor
  · constructor
    · rintro ⟨f, hf, hkind⟩
      rcases rejected_of_error hbreak hf with ⟨hlong, -⟩ | ⟨-, -, hkind'⟩
      · exact hlong
      · rw [hkind'] at hkind
        cases hkind
    · intro hlong
      obtain ⟨digits, refusal, hf⟩ := parse_overlong hlong true place
      exact ⟨_, hf, rfl⟩
  · intro hshort
    constructor
    · rintro ⟨f, hf, -⟩
      rcases rejected_of_error hbreak hf with ⟨hlong, -⟩ | ⟨-, hstray, -⟩
      · exact absurd hlong hshort
      · exact hstray
    · intro hstray
      obtain ⟨stray, raw, hf⟩ := parse_stray hbreak hshort hstray place
      exact ⟨_, hf, rfl⟩

end Line

/-! ### Documents -/

namespace Reading

variable {xs : List (List Char)}

/-- Lines are read strictly exactly if none is rejected. -/
theorem lines_strict (hbreak : ∀ x ∈ xs, '\n' ∉ x) : ∀ count : Nat,
    (∃ ls, (ofLines true count xs).lines = .ok ls) ↔ ∀ x ∈ xs, ¬ Line.Rejected x := by
  induction xs with
  | nil => exact fun _ => ⟨fun _ _ hx => absurd hx List.not_mem_nil, fun _ => ⟨[], rfl⟩⟩
  | cons x xs ih =>
    intro count
    obtain ⟨hx, hxs⟩ := List.forall_mem_cons.1 hbreak
    rw [List.forall_mem_cons, ← ih hxs (count + 1)]
    constructor
    · rintro ⟨ls, hls⟩
      obtain ⟨line?, rest, hline, hrest, -⟩ := lines_cons_eq_ok.1 hls
      refine ⟨fun hrejected => ?_, rest, hrest⟩
      obtain ⟨f, hf⟩ := Line.parse_rejected hx hrejected (some ((count + 1 : Nat) : Int))
      rw [hline] at hf
      cases hf
    · rintro ⟨haccepted, rest, hrest⟩
      obtain ⟨line?, hline, -⟩ :=
        Line.parse_accepted hx haccepted (some ((count + 1 : Nat) : Int))
      exact ⟨_, lines_cons_eq_ok.2 ⟨line?, rest, hline, hrest, rfl⟩⟩

/-- Lines none of which is rejected are read strictly as they are read leniently. -/
theorem ofLines_strict (hbreak : ∀ x ∈ xs, '\n' ∉ x) (h : ∀ x ∈ xs, ¬ Line.Rejected x) :
    ∀ count : Nat, ofLines true count xs = ofLines false count xs := by
  induction xs with
  | nil => exact fun _ => rfl
  | cons x xs ih =>
    intro count
    obtain ⟨hx, hxs⟩ := List.forall_mem_cons.1 hbreak
    obtain ⟨haccepted, hrest⟩ := List.forall_mem_cons.1 h
    obtain ⟨line?, hstrict, hlenient⟩ :=
      Line.parse_accepted hx haccepted (some ((count + 1 : Nat) : Int))
    rw [ofLines, ofLines, hstrict, hlenient, ih hxs hrest]

end Reading

/-- Strict reading refuses a line with a fault of the value exactly if it ends in a checksum of more
digits than a numeral may have, and else, with a fault of the text, exactly if it has stray text;
there are no other faults. What it does not refuse it reads as lenient reading does. It reads a
document exactly if it refuses none of its lines, and then as lenient reading does. -/
theorem strict_accepts :
    (∀ text, '\n' ∉ text → ∀ place : Option Int,
      ((∃ f, Line.parse true text place = .error f ∧ f.kind = .value) ↔
        ∃ body digits, Checksum.Ends (trim text) body digits ∧ 4300 < digits.length) ∧
      (¬ Line.Overlong text →
        ((∃ f, Line.parse true text place = .error f ∧ f.kind = .tokenize) ↔ Line.Stray text)) ∧
      (∀ f, Line.parse true text place = .error f → f.kind = .value ∨ f.kind = .tokenize) ∧
      (¬ Line.Overlong text → ¬ Line.Stray text →
        ∃ line?, Line.parse true text place = .ok line? ∧
          Line.parse false text place = .ok line?)) ∧
    ∀ document,
      ((∃ ls, (LineReader.program { strict := true } document).1.lines = .ok ls) ↔
        ∀ l ∈ physicalLines document, ¬ Line.Rejected l) ∧
      ((∀ l ∈ physicalLines document, ¬ Line.Rejected l) →
        (LineReader.program { strict := true } document).1 =
          (LineReader.program { strict := false } document).1) := by
  constructor
  · intro text hbreak place
    obtain ⟨hvalue, htokenize⟩ := Line.parse_strict hbreak place
    refine ⟨hvalue.trans Line.overlong_iff, htokenize, fun f hf => ?_, fun hshort hclean => ?_⟩
    · rcases Line.rejected_of_error hbreak hf with ⟨-, hkind⟩ | ⟨-, -, hkind⟩
      · exact .inl hkind
      · exact .inr hkind
    · exact Line.parse_accepted hbreak (not_or.2 ⟨hshort, hclean⟩) place
  · intro document
    have hbreak := not_mem_physicalLines document
    rw [LineReader.program_reading, LineReader.program_reading]
    exact ⟨Reading.lines_strict hbreak 0, fun h => Reading.ofLines_strict hbreak h 0⟩

/-- A line with two words and a comment is accepted, one with a question mark is refused for its
text and a checksum with too many zeros for its value; a document with a directive and a blank line
is read as it is read leniently. -/
theorem strict_accepts_words :
    (∃ line?, Line.parse true "g1 X-2 (fast?)".toList none = .ok line? ∧
        Line.parse false "g1 X-2 (fast?)".toList none = .ok line?) ∧
      (∃ f, Line.parse true "G2 ?".toList (some 7) = .error f ∧ f.kind = .tokenize) ∧
      (∃ f, Line.parse true zeros (some 1) = .error f ∧ f.kind = .value) ∧
      (LineReader.program { strict := true } "%ab\r\n\rG1 Y+.5*9".toList).1 =
        (LineReader.program { strict := false } "%ab\r\n\rG1 Y+.5*9".toList).1 := by
  obtain ⟨hlines, hdocuments⟩ := strict_accepts
  refine ⟨?_, ?_, ?_, ?_⟩
  · obtain ⟨-, -, -, haccepted⟩ := hlines "g1 X-2 (fast?)".toList (by decide) none
    exact haccepted (by decide) (by decide)
  · obtain ⟨-, htokenize, -, -⟩ := hlines "G2 ?".toList (by decide) (some 7)
    exact (htokenize (by decide)).2 (by decide)
  · have hbreak : '\n' ∉ zeros := by
      refine not_mem_physicalLines zeros zeros ?_
      rw [physicalLines_zeros]
      exact List.mem_singleton_self zeros
    obtain ⟨hvalue, -, -, -⟩ := hlines zeros hbreak (some 1)
    exact hvalue.2 (Line.overlong_iff.1 overlong_zeros)
  · obtain ⟨-, hagree⟩ := hdocuments "%ab\r\n\rG1 Y+.5*9".toList
    exact hagree (by decide)

end Gcode
