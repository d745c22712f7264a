import Gcode.Proofs.Agreement
import Gcode.Proofs.Background
import Gcode.Proofs.Numerals
import Gcode.Proofs.Refusals
import Gcode.Proofs.Returning

/-!
Lenient loading. Reading leniently passes over stray text and keeps malformed values as they are; it
refuses one thing only, a checksum with more digits than a numeral may have. Main statement: if
whatever is called returns, a text is loaded leniently, at once or in the background, exactly if
none of its lines states such a checksum (`lenient_loads`).
-/

namespace Gcode

open Gcode.Text

/-! ### Digits -/

/-- Digits are read unless there are too many. -/
theorem Integer.readDigits_digits {s : List Char} (hs : s ≠ [])
    (h : ∀ c ∈ s, isDecimalDigit c = true) :
    ∃ n, readDigits s = if maxDigits < s.length then .error (.tooLong s.length) else .ok n := by
  refine ⟨_, readDigits_eq (fun c => (digitValue? c).getD 0) hs fun c hc => ?_⟩
  obtain ⟨d, hd⟩ := Option.isSome_iff_exists.1 (h c hc)
  rw [hd]
  rfl

namespace Checksum

variable {s body digits : List Char}

/-- A checksum is stated in digits, one at least. -/
theorem split?_digits (h : split? s = some (body, digits)) :
    digits ≠ [] ∧ ∀ c ∈ digits, isDecimalDigit c = true := by
  rw [split?] at h
  split at h
  · split at h
    · cases h
    · rename_i hdigits
      cases h
      refine ⟨by simpa using hdigits, fun c hc => ?_⟩
      exact List.mem_takeWhile_imp (List.mem_reverse.1 hc)
  · cases h

/-- A text that ends in a star and digits is cut before the star. -/
theorem split?_append (body : List Char) (hdigits : digits ≠ [])
    (h : ∀ c ∈ digits, isDecimalDigit c = true) :
    split? (body ++ '*' :: digits) = some (body, digits) := by
  have hback : ∀ c ∈ digits.reverse, isDecimalDigit c = true := fun c hc =>
    h c (List.mem_reverse.1 hc)
  have hstar : isDecimalDigit '*' = false := by decide
  rw [split?]
  simp only [List.reverse_append, List.reverse_cons, List.append_assoc, List.singleton_append]
  rw [List.takeWhile_append_of_pos hback, List.dropWhile_append_of_pos hback,
    List.takeWhile_cons_of_neg (by simp [hstar]), List.dropWhile_cons_of_neg (by simp [hstar])]
  simp [hdigits]

/-- The checksum of a text is taken off unless it has too many digits. -/
theorem take_of_split (h : split? s = some (body, digits)) : ∃ n, take s =
    if Integer.maxDigits < digits.length then
      .error (.badInteger (String.ofList digits) (.tooLong digits.length))
    else .ok (body, some ⟨n, checksumOf body⟩) := by
  obtain ⟨hne, hall⟩ := split?_digits h
  obtain ⟨n, hread⟩ := Integer.readDigits_digits hne hall
  refine ⟨n, ?_⟩
  simp only [take, h, hread]
  by_cases hlong : Integer.maxDigits < digits.length
  · simp only [if_pos hlong]
  · simp only [if_neg hlong]

end Checksum

/-! ### Lines that are refused -/

namespace Line

variable {s : List Char}

/-- A line states a checksum with more digits than a numeral may have. -/
def Overlong (s : List Char) : Prop :=
  ∃ p ∈ Checksum.split? (trim s), Integer.maxDigits < p.2.length

instance : DecidablePred Overlong :=
  fun s => inferInstanceAs (Decidable (∃ p ∈ Checksum.split? (trim s), _))

/-- Such a line is refused, however it is read. -/
theorem parse_overlong (h : Overlong s) (strict : Bool) (place : Option Int) :
    ∃ digits refusal, parse strict s place = .error (.badInteger digits refusal) := by
  obtain ⟨⟨body, digits⟩, hsplit, hlong⟩ := h
  obtain ⟨n, htake⟩ := Checksum.take_of_split hsplit
  rw [if_pos hlong] at htake
  have hne : (trim s).isEmpty = false := by
    rw [List.isEmpty_eq_false_iff]
    intro hempty
    rw [hempty] at hsplit
    cases hsplit
  refine ⟨String.ofList digits, .tooLong digits.length, ?_⟩
  simp only [parse, hne, htake]
  rfl

/-- Of any other line the checksum is taken off. -/
theorem take_of_not_overlong (h : ¬ Overlong s) : ∃ r, Checksum.take (trim s) = .ok r := by
  cases hsplit : Checksum.split? (trim s) with
  | none => exact ⟨_, by rw [Checksum.take, hsplit]⟩
  | some p =>
    obtain ⟨n, htake⟩ := Checksum.take_of_split hsplit
    rw [if_neg fun hlong => h ⟨p, hsplit, hlong⟩] at htake
    exact ⟨_, htake⟩

/-- It is read leniently. -/
theorem parse_lenient (h : ¬ Overlong s) (place : Option Int) :
    ∃ line?, parse false s place = .ok line? := by
  obtain ⟨⟨body, checksum⟩, htake⟩ := take_of_not_overlong h
  rw [parse]
  dsimp only
  split
  · exact ⟨_, rfl⟩
  · rw [htake]
    dsimp only
    split
    · exact ⟨_, rfl⟩
    split
    · exact ⟨_, rfl⟩
    exact ⟨_, rfl⟩

end Line

/-- No line of a text states a checksum that is too long. -/
def Readable (text : List Char) : Prop := ∀ l ∈ physicalLines text, ¬ Line.Overlong l

instance : DecidablePred Readable :=
  fun text => inferInstanceAs (Decidable (∀ l ∈ physicalLines text, ¬ Line.Overlong l))

/-- A text that is not readable has a first line that is refused. -/
theorem Readable.refused_of_not {text : List Char} (h : ¬ Readable text) (strict : Bool) :
    ∃ p f, FirstRefused strict (numberedLines text) p f := by
  simp only [Readable, not_forall, not_not] at h
  obtain ⟨l, hl, hlong⟩ := h
  obtain ⟨k, hk, rfl⟩ := List.getElem_of_mem hl
  have hmem : ((physicalLines text)[k], 1 + k) ∈ numberedLines text := by
    rw [numberedLines]
    exact List.mem_iff_getElem.2 ⟨k, by simpa using hk, by simp⟩
  obtain ⟨digits, refusal, hf⟩ := Line.parse_overlong hlong strict (some ((1 + k : Nat) : Int))
  exact FirstRefused.exists_of_mem hmem hf

/-- Lenient reading refuses nothing but lines with an overlong checksum. -/
theorem Reading.lines_lenient {xs : List (List Char)} (h : ∀ x ∈ xs, ¬ Line.Overlong x) :
    ∀ count, ∃ ls, (ofLines false count xs).lines = .ok ls := by
  induction xs with
  | nil => exact fun _ => ⟨[], rfl⟩
  | cons x xs ih =>
    intro count
    obtain ⟨hx, hxs⟩ := List.forall_mem_cons.1 h
    obtain ⟨line?, hline⟩ := Line.parse_lenient hx (some ((count + 1 : Nat) : Int))
    obtain ⟨ls, hls⟩ := ih hxs (count + 1)
    refine ⟨line?.toList ++ ls, ?_⟩
    rw [ofLines]
    simp only [hline, hls, Except.map]

/-- What a text gives if it is read leniently. -/
def readLeniently (text : List Char) : Outcome :=
  (LineReader.program { strict := false } text).1.lines

section ReadLeniently

variable {text : List Char} {f : Fault}

theorem readLeniently_refused {p : List Char × Nat}
    (h : FirstRefused false (numberedLines text) p f) : readLeniently text = .error f := by
  rw [readLeniently, LineReader.program_reading]
  exact Reading.lines_of_firstRefused h

/-- The readable texts are those that are read leniently. -/
theorem readLeniently_ok_iff : (∃ ls, readLeniently text = .ok ls) ↔ Readable text := by
  constructor
  · rintro ⟨ls, hls⟩
    by_contra hno
    obtain ⟨p, f, hfirst⟩ := Readable.refused_of_not hno false
    rw [readLeniently_refused hfirst] at hls
    cases hls
  · intro h
    rw [readLeniently, LineReader.program_reading]
    exact Reading.lines_lenient h 0

/-- Lenient reading is stopped by a value, which is no fault of loading. -/
theorem kind_of_readLeniently (h : readLeniently text = .error f) : f.kind = .value := by
  have hno : ¬ Readable text := by
    rw [← readLeniently_ok_iff, h]
    rintro ⟨ls, hls⟩
    cases hls
  obtain ⟨p, f', hfirst⟩ := Readable.refused_of_not hno false
  rw [readLeniently_refused hfirst] at h
  cases h
  rcases Line.parse_error hfirst.refused with ⟨digits, refusal, rfl⟩ | ⟨hstrict, -⟩
  · rfl
  · cases hstrict

end ReadLeniently

/-! ### Opening a text -/

namespace Interpreter

open Act

variable {it : Interpreter} {m : Machine} {text : List Char} {x : Literal}

/-- A text in memory is opened as a stream of its own. -/
theorem opens_text {s : Stream} {total name : Literal}
    (hopen : openText x = addStreamSource s total name) : it.Opens (.text x) s := by
  intro m
  have hs : (m.addStream s).streams[m.streams.length]? = some s := List.getElem?_concat_length
  have hopened : it.openOrigin (.text x) m = .ok (.source m.sources.length)
      ((m.addStream s).addSource
        { stream := m.streams.length, total, name := Source.nameFor name s.label s.typeName }) := by
    rw [openOrigin, hopen]
    exact bind_ok (wrapStream_eq hs total name) _
  exact ⟨_, _, _, hopened, rfl, .source (Machine.Reads.addSource hs) fun _ hj => by cases hj⟩

/-- What is loaded in the background is the whole text, unless the reads ask for nothing. -/
def Gives (it : Interpreter) (text given : List Char) : Prop :=
  given = text ∨ it.chunkSize = 0 ∧ given = []

theorem Gives.eq {given : List Char} (h : it.Gives text given) (hsize : it.chunkSize ≠ 0) :
    given = text := by
  rcases h with h | ⟨hzero, -⟩
  · exact h
  · exact absurd hzero hsize

theorem gives_ofText (e : Encoding) (hsize : Limits.isSize it.chunkSize = true)
    (text : List Char) : ∃ ps, (Stream.ofText text).Yields it.chunkSize ps ∧
      it.Gives text (documentOf { encoding := e } ps) := by
  obtain ⟨cs, hyields, hall⟩ := Stream.yields_ofText hsize text
  refine ⟨_, hyields, ?_⟩
  rw [documentOf_text]
  rcases hall with rfl | ⟨hzero, rfl⟩
  · exact .inl (List.append_nil _)
  · exact .inr ⟨hzero, rfl⟩

theorem gives_ofBytes {e : Encoding} (he : encodingNamed it.encoding = .ok e)
    (hsize : Limits.isSize it.chunkSize = true) {b : Bytes}
    (hb : decodeAll it.encoding b = .ok text) : ∃ ps, (Stream.ofBytes b).Yields it.chunkSize ps ∧
      it.Gives text (documentOf { encoding := e } ps) := by
  rw [decodeAll, he] at hb
  cases hb
  obtain ⟨cs, hyields, hall⟩ := Stream.yields_ofBytes hsize b
  refine ⟨_, hyields, ?_⟩
  rw [documentOf_bytes]
  rcases hall with rfl | ⟨hzero, rfl⟩
  · exact .inl rfl
  · exact .inr ⟨hzero, rfl⟩

/-- Text or bytes are opened as a stream that gives them and gives up the turn at every read. -/
theorem opens_contents {e : Encoding} (he : encodingNamed it.encoding = .ok e)
    (hx : it.contents (.text x) = .ok text) (hsize : Limits.isSize it.chunkSize = true) :
    ∃ s ps, it.Opens (.text x) s ∧ s.waits = none ∧ s.Yields it.chunkSize ps ∧
      it.Gives text (documentOf { encoding := e } ps) := by
  cases x with
  | null =>
    cases hx
    obtain ⟨ps, hps⟩ := gives_ofText e hsize []
    exact ⟨_, ps, opens_text rfl, rfl, hps⟩
  | text t =>
    cases hx
    obtain ⟨ps, hps⟩ := gives_ofText e hsize t.toList
    exact ⟨_, ps, opens_text rfl, rfl, hps⟩
  | bytes b | byteArray b =>
    obtain ⟨ps, hps⟩ := gives_ofBytes he hsize hx
    exact ⟨_, ps, opens_text rfl, rfl, hps⟩
  | _ => cases hx

/-! ### Lenient loads -/

/-- At once, a readable text is loaded, and no other. -/
theorem Returning.loadString_lenient (h : it.Returning) (hintact : it.Intact)
    (hx : it.contents (.text x) = .ok text) (hlenient : m.strict = false) {callback : Option String}
    (hcallback : it.LineDoneReturns callback) :
    (∃ ls m', it.loadString x callback m = .ok ls m') ↔ Readable text := by
  obtain ⟨op, hload⟩ : ∃ op, it.loadString x callback = it.call op (it.loadText text callback) :=
    loadAtOnce_readable hx
  rw [hload, hintact.call_eq]
  constructor
  · rintro ⟨ls, m', hls⟩
    by_contra hno
    obtain ⟨p, f, hfirst⟩ := Readable.refused_of_not hno m.strict
    obtain ⟨f', log, hrefused, -⟩ : it.Refuses (it.loadText text callback) m f :=
      loadText_refuses hfirst
    rw [hls] at hrefused
    cases hrefused
  · intro hreadable
    obtain ⟨ls, hls⟩ := readLeniently_ok_iff.2 hreadable
    rw [readLeniently, ← hlenient] at hls
    exact ⟨ls, h.loadText_returns hintact hcallback hls⟩

/-- In the background, a load of a text ends with what the text gives. -/
theorem Undisturbed.loads_leniently (h : it.Undisturbed m.tasks.length) {e : Encoding}
    (he : encodingNamed it.encoding = .ok e) (hloop : it.hasLoop = true)
    (hsize : Limits.isSize it.chunkSize = true) (hx : it.contents (.text x) = .ok text)
    (hlenient : m.strict = false) (callback : Option String) :
    ∃ given m₁, it.Gives text given ∧ it.schedule (.text x) callback m = .ok () m₁ ∧
      ∀ schedule : Nat → Move,
        (∀ n, schedule n ≠ .turn m.tasks.length → (it.runs schedule m₁ n).LeavesAlone
          m.tasks.length (it.runs schedule m₁ (n + 1))) →
        Fair m.tasks.length schedule →
        it.Concludes m.tasks.length callback schedule m₁ (readLeniently given) := by
  obtain ⟨s, ps, hopens, hwaits, hyields, hgives⟩ := opens_contents he hx hsize
  obtain ⟨m₁, hschedule, hstrict, htask⟩ :=
    schedule_returns h.attentive.intact hloop (.text x) callback m
  refine ⟨_, m₁, hgives, hschedule, fun schedule hothers hfair => ?_⟩
  have hends := h.concludes he htask rfl rfl hopens hwaits hyields hothers hfair
  rwa [hstrict, hlenient] at hends

end Interpreter

/-- Handlers and callbacks make the interpreter forget its modal command, and return. -/
def obliging : Interpreter where
  host := { Host.silent with
    handler := fun _ args => do
      Interpreter.reset
      pure args
    callback := fun _ _ => Interpreter.reset }

/-- A text with stray characters, a value that is no number, and a checksum that is wrong. -/
def sloppyText : String := "G1 X1..2 ?*7\n%"

theorem leavesAlone_reset (i : Nat) (m : Machine) : m.LeavesAlone i { m with modal := "" } :=
  Machine.leavesAlone_of_eq rfl rfl rfl rfl

theorem obliging_undisturbed : obliging.Undisturbed 0 where
  attentive := ⟨⟨fun op => by cases op <;> rfl, fun _ _ m => ⟨m, rfl⟩⟩, fun _ _ m => ⟨_, rfl⟩⟩
  returning := ⟨fun _ args m => ⟨args, _, rfl⟩, fun _ args m => ⟨(0, args), m, rfl⟩⟩
  respects :=
    { handler := fun _ _ => leavesAlone_reset 0
      method := fun _ args => (Machine.steady_leavesAlone 0).nothing args
      listener := fun _ _ => (Machine.steady_leavesAlone 0).nothing ()
      callback := fun _ _ => leavesAlone_reset 0
      answer := fun _ _ _ hop => by cases hop }

/-- A star and one zero more than a numeral may have digits. -/
def zeros : List Char := '*' :: List.replicate (Integer.maxDigits + 1) '0'

theorem physicalLines_zeros : physicalLines zeros = [zeros] := by
  have hlast : physicalLines ['0'] = [['0']] := rfl
  have hplain : ∀ c ∈ '*' :: List.replicate Integer.maxDigits '0', c = '*' ∨ c = '0' := by
    intro c hc
    rcases List.mem_cons.1 hc with rfl | hc
    · exact .inl rfl
    · exact .inr (List.eq_of_mem_replicate hc)
  rw [zeros, List.replicate_succ', ← List.cons_append]
  refine physicalLines_plain_append ⟨fun h => ?_, fun h => ?_⟩ hlast
  · rcases hplain _ h with h | h <;> cases h
  · rcases hplain _ h with h | h <;> cases h

theorem overlong_zeros : Line.Overlong zeros := by
  have htrim : trim zeros = zeros := by
    rw [trim, trimWhile, zeros, List.dropWhile_cons_of_neg (by decide), List.replicate_succ',
      ← List.cons_append]
    exact List.rdropWhile_concat_neg _ _ _ (by decide)
  have hzeros : ∀ c ∈ List.replicate (Integer.maxDigits + 1) '0', isDecimalDigit c = true := by
    intro c hc
    rw [List.eq_of_mem_replicate hc]
    decide
  have hsplit : Checksum.split? (trim zeros) =
      some ([], List.replicate (Integer.maxDigits + 1) '0') := by
    rw [htrim]
    exact Checksum.split?_append [] (List.cons_ne_nil _ _) hzeros
  refine ⟨_, hsplit, ?_⟩
  rw [List.length_replicate]
  exact Nat.lt_succ_self _

theorem not_readable_zeros : ¬ Readable zeros := by
  intro h
  refine h zeros ?_ overlong_zeros
  rw [physicalLines_zeros]
  exact List.mem_singleton_self zeros

/-- Host code that does nothing disturbs nothing. -/
theorem undisturbed_silent (i : Nat) : Interpreter.Undisturbed {} i where
  attentive := ⟨⟨fun op => by cases op <;> rfl, fun _ _ m => ⟨m, rfl⟩⟩, fun _ _ m => ⟨m, rfl⟩⟩
  returning := ⟨fun _ args m => ⟨args, m, rfl⟩, fun _ args m => ⟨(0, args), m, rfl⟩⟩
  respects :=
    { handler := fun _ args => (Machine.steady_leavesAlone i).nothing args
      method := fun _ args => (Machine.steady_leavesAlone i).nothing args
      listener := fun _ _ => (Machine.steady_leavesAlone i).nothing ()
      callback := fun _ _ => (Machine.steady_leavesAlone i).nothing ()
      answer := fun _ _ _ hop => by cases hop }

end Gcode
