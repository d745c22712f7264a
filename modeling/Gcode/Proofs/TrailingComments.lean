import Gcode.Proofs.Checksums

/-!
Checksums and trailing comments. The checksum is looked for at the end of the whole line, before the
comments are taken off it. So a comment behind a semicolon hides the checksum of the text before it,
and what looks like one at the end of the comment is taken for that of the line, over the text and
the comment. Main statement: if the comment ends in no checksum, it makes no difference to what is
reported exactly if the text has none (`Line.trailing_comment_checksum`).
-/

namespace Gcode

open Gcode.Text

/-! ### Texts that end in a checksum -/

/-- A text that ends in a star and digits, but for white space. -/
structure Checksum.Stamps (s body digits : List Char) : Prop where
  digits_ne_nil : digits ≠ []
  isDecimalDigit : ∀ c ∈ digits, isDecimalDigit c = true
  eq : ∃ blanks, (∀ c ∈ blanks, isBlank c = true) ∧ s = body ++ '*' :: (digits ++ blanks)

/-- A text that ends in a checksum, right or wrong. -/
def Checksum.Stamped (s : List Char) : Prop := ∃ body digits, Stamps s body digits

theorem dropWhile_append_cons {p : Char → Bool} {c : Char} (hc : p c = false) (s t : List Char) :
    (s ++ c :: t).dropWhile p = s.dropWhile p ++ c :: t := by
  induction s with
  | nil => exact List.dropWhile_cons_of_neg (by rw [hc]; exact Bool.false_ne_true)
  | cons d s ih =>
    rw [List.cons_append, List.dropWhile_cons, List.dropWhile_cons]
    split
    · exact ih
    · rfl

namespace Checksum

variable {s t body digits : List Char}

/-- The white space around a text does not hide its checksum. -/
theorem Stamps.split?_trim (h : Stamps s body digits) :
    split? (trim s) = some (body.dropWhile isBlank, digits) := by
  obtain ⟨hne, hdigits, blanks, hblanks, rfl⟩ := h
  have hlast {c : Char} (hc : c ∈ (body.dropWhile isBlank ++ '*' :: digits).getLast?) :
      isBlank c = false := by
    have hmem : c ∈ digits := by
      obtain ⟨d, ds, rfl⟩ := List.exists_cons_of_ne_nil hne
      rw [List.getLast?_append_cons, List.getLast?_cons_cons] at hc
      exact List.mem_of_getLast? hc
    exact (digit_plain (hdigits c hmem)).2.1
  have htrim : trim (body ++ '*' :: (digits ++ blanks)) =
      body.dropWhile isBlank ++ '*' :: digits := by
    rw [trim, trimWhile, dropWhile_append_cons (by decide), ← List.cons_append, ← List.append_assoc,
      dropEndWhile, List.reverse_append,
      List.dropWhile_append_of_pos fun c hc => hblanks c (List.mem_reverse.1 hc)]
    exact List.rdropWhile_eq_self_iff.2 fun hnil => by
      rw [hlast (List.getLast?_eq_some_getLast hnil)]
      exact Bool.false_ne_true
  rw [htrim]
  exact split?_append _ hne hdigits

theorem split?_trim_of_not_stamped (h : ¬ Stamped s) : split? (trim s) = none := by
  cases hsplit : split? (trim s) with
  | none => rfl
  | some p =>
    obtain ⟨before, behind, hs, -, hbehind⟩ := trim_surrounded s
    obtain ⟨heq, hne, hdigits⟩ := split?_eq_some_iff.1 hsplit
    refine absurd ⟨before ++ p.1, p.2, hne, hdigits, behind, hbehind, ?_⟩ h
    rw [heq] at hs
    rw [hs]
    simp only [List.append_assoc, List.cons_append]

/-- A text with a comment behind it ends in a checksum exactly if the comment does. -/
theorem stamps_comment : Stamps (t ++ ';' :: s) body digits ↔
    ∃ b, body = t ++ ';' :: b ∧ Stamps s b digits := by
  constructor
  · rintro ⟨hne, hdigits, blanks, hblanks, heq⟩
    -- the semicolon is neither the star nor one of the characters behind it
    have hsemi : ';' ∉ '*' :: (digits ++ blanks) := by
      intro hmem
      rcases List.mem_cons.1 hmem with h | hmem
      · exact absurd h (by decide)
      · rcases List.mem_append.1 hmem with h | h
        · exact absurd (hdigits _ h) (by decide)
        · exact absurd (hblanks _ h) (by decide)
    rcases List.append_eq_append_iff.1 heq with ⟨b, hbody, hrest⟩ | ⟨b, hbody, hrest⟩
    · cases b with
      | nil =>
        rw [List.nil_append] at hrest
        exact absurd (hrest ▸ List.mem_cons_self) hsemi
      | cons d b =>
        obtain ⟨rfl, rfl⟩ := List.cons.inj hrest
        exact ⟨b, hbody, hne, hdigits, blanks, hblanks, rfl⟩
    · exact absurd (hrest ▸ List.mem_append_right b List.mem_cons_self) hsemi
  · rintro ⟨b, rfl, hne, hdigits, blanks, hblanks, rfl⟩
    exact ⟨hne, hdigits, blanks, hblanks, by simp only [List.append_assoc, List.cons_append]⟩

end Checksum

/-! ### What is reported -/

namespace Line

open Checksum

variable {text body digits t s : List Char}

/-- What lenient reading reports about the checksum of a line: the number that is stated and whether
it is right, if there is one. -/
def checksumFields (text : List Char) (place : Option Int) : Except Fault (Option (Nat × Bool)) :=
  (parse false text place).map fun l => (l.bind Line.checksum).map fun k => (k.stated, k.ok)

/-- What is reported about digits that are stated behind a text. -/
def stamp (body digits : List Char) : Except Fault (Option (Nat × Bool)) :=
  match Integer.readDigits digits with
  | .error r => .error (.badInteger (String.ofList digits) r)
  | .ok n => .ok (some (n, checksumOf body == n))

theorem checksumFields_eq (text : List Char) (place : Option Int) :
    checksumFields text place =
      (Checksum.take (trim text)).map fun r => r.2.map fun k => (k.stated, k.ok) := by
  cases hink : hasInk text with
  | false =>
    rw [checksumFields, parse_of_blank hink, (trim_eq_nil_iff text).2 hink]
    rfl
  | true =>
    have hraw : (trim text).isEmpty = false := by
      rw [List.isEmpty_eq_false_iff, Ne, trim_eq_nil_iff, hink]
      decide
    cases htake : Checksum.take (trim text) with
    | error f =>
      simp only [checksumFields, parse, hraw, htake]
      rfl
    | ok r =>
      obtain ⟨body, checksum⟩ := r
      rw [checksumFields]
      rcases parse_of_ink hink false place with ⟨f, hf⟩ | ⟨l, hl, -⟩
      · simp only [parse, hraw, htake, Bool.false_eq_true, if_false, Bool.false_and] at hf
        split_ifs at hf
      · rw [hl]
        exact congrArg (fun k : Option Checksum => Except.ok (k.map fun k => (k.stated, k.ok)))
          (checksum_of_parse htake hl)

theorem checksumFields_stamped (h : Stamps text body digits) (place : Option Int) :
    checksumFields text place = stamp (body.dropWhile isBlank) digits := by
  rw [checksumFields_eq, Checksum.take, h.split?_trim, stamp]
  dsimp only
  cases Integer.readDigits digits with
  | error r => rfl
  | ok n => rfl

theorem checksumFields_not_stamped (h : ¬ Stamped text) (place : Option Int) :
    checksumFields text place = .ok none := by
  rw [checksumFields_eq, Checksum.take, split?_trim_of_not_stamped h]
  rfl

/-- A checksum that is stated is reported, or refused. -/
theorem checksumFields_eq_ok_none_iff (text : List Char) (place : Option Int) :
    checksumFields text place = .ok none ↔ ¬ Stamped text := by
  refine ⟨fun hfields hstamped => ?_, fun h => checksumFields_not_stamped h place⟩
  obtain ⟨body, digits, h⟩ := hstamped
  rw [checksumFields_stamped h, stamp] at hfields
  split at hfields
  · cases hfields
  · cases hfields

theorem stamped_comment : Stamped (t ++ ';' :: s) ↔ Stamped s := by
  constructor
  · rintro ⟨body, digits, h⟩
    obtain ⟨b, -, hb⟩ := stamps_comment.1 h
    exact ⟨b, digits, hb⟩
  · rintro ⟨b, digits, hb⟩
    exact ⟨t ++ ';' :: b, digits, stamps_comment.2 ⟨b, rfl, hb⟩⟩

/-- What a trailing comment does to the checksum of a line. If either the text or the comment ends
in no checksum, the comment makes no difference exactly if neither does. If the comment ends in one,
that is what is reported, over the text and the comment before it; without the comment, it is the
one that the text ends in. -/
theorem trailing_comment_checksum (t s : List Char) (place : Option Int) :
    (¬ Stamped s → (checksumFields (t ++ ';' :: s) place = checksumFields t place ↔ ¬ Stamped t)) ∧
      (¬ Stamped t →
        (checksumFields (t ++ ';' :: s) place = checksumFields t place ↔ ¬ Stamped s)) ∧
      (∀ body digits, Stamps s body digits → checksumFields (t ++ ';' :: s) place =
        stamp ((t ++ ';' :: body).dropWhile isBlank) digits) ∧
      ∀ body digits, Stamps t body digits → checksumFields t place =
        stamp (body.dropWhile isBlank) digits := by
  refine ⟨fun hs => ?_, fun ht => ?_, fun body digits h => ?_,
    fun body digits h => checksumFields_stamped h place⟩
  · rw [checksumFields_not_stamped (stamped_comment.not.2 hs), eq_comm,
      checksumFields_eq_ok_none_iff]
  · rw [checksumFields_not_stamped ht, checksumFields_eq_ok_none_iff, stamped_comment]
  · exact checksumFields_stamped (stamps_comment.2 ⟨body, rfl, h⟩) place

/-- A comment behind a checksum hides it: of two lines without line breaks and parentheses, the one
reports a checksum that is right, and the one with a comment reports none. -/
theorem trailing_comment_hides :
    let t := ['G', '1', '*', '1', '1', '8']
    let s := ['g', 'o']
    hasInk t = true ∧ (∀ c ∈ t, c ∉ ['\n', '\r', '(', ';']) ∧ (∀ c ∈ s, c ∉ ['\n', '\r', ')']) ∧
      checksumFields t none = .ok (some (118, true)) ∧
      checksumFields (t ++ ';' :: s) none = .ok none :=
  ⟨by decide, by simp, by simp, by decide +kernel, by decide +kernel⟩

end Line

end Gcode
