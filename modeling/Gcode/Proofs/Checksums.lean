import Gcode.Proofs.Grammar
import Gcode.Proofs.Numerals

/-!
Checksums that are stated and checked. The checksum of a text is the exclusive or of what its parts
have (`checksumOf_append`), so two texts that differ in the low eight bits of one character differ
in their checksums. A text that is sent with its checksum behind a star is cut at that star,
whatever stars and digits it has itself. Main statement: a line states the checksum that it was sent
with, and this is right if the text has arrived as it was, and wrong if one character has not
(`checksum_detects`).
-/

namespace Gcode

open Gcode.Text

/-! ### The checksum of a text -/

theorem foldl_checksum (s : List Char) (sum : Nat) :
    s.foldl (fun sum c => sum ^^^ (c.toNat % 256)) sum = sum ^^^ checksumOf s := by
  induction s generalizing sum with
  | nil => exact (Nat.xor_zero sum).symm
  | cons c s ih =>
    have hrest : checksumOf (c :: s) = 0 ^^^ (c.toNat % 256) ^^^ checksumOf s := ih _
    rw [List.foldl_cons, ih, hrest, Nat.zero_xor, Nat.xor_assoc]

theorem checksumOf_cons (c : Char) (s : List Char) :
    checksumOf (c :: s) = c.toNat % 256 ^^^ checksumOf s := by
  rw [checksumOf, List.foldl_cons, foldl_checksum, Nat.zero_xor]

theorem checksumOf_append (s t : List Char) :
    checksumOf (s ++ t) = checksumOf s ^^^ checksumOf t := by
  rw [checksumOf, List.foldl_append, foldl_checksum]
  rfl

theorem checksumOf_lt (s : List Char) : checksumOf s < 256 := by
  induction s with
  | nil => decide
  | cons c s ih =>
    rw [checksumOf_cons]
    exact Nat.xor_lt_two_pow (n := 8) (Nat.mod_lt _ (by decide)) ih

/-- With another character in one place the checksum is the same exactly if the low eight bits of
the character are. -/
theorem checksumOf_set {s : List Char} {i : Nat} {c : Char} (hc : s[i]? = some c) (d : Char) :
    checksumOf (s.set i d) = checksumOf s ↔ d.toNat % 256 = c.toNat % 256 := by
  obtain ⟨hi, rfl⟩ := List.getElem?_eq_some_iff.1 hc
  have hs : checksumOf s = checksumOf (s.take i) ^^^ checksumOf (s[i] :: s.drop (i + 1)) := by
    rw [← checksumOf_append, List.getElem_cons_drop, List.take_append_drop]
  rw [hs, List.set_eq_take_cons_drop d hi, checksumOf_append, checksumOf_cons, checksumOf_cons,
    Nat.xor_right_inj, Nat.xor_left_inj]

/-! ### Lines that state a checksum -/

/-- A text with no white space at either end is trimmed. -/
theorem trim_eq_self {s : List Char} (hfront : ∀ c ∈ s.head?, isBlank c = false)
    (hback : ∀ c ∈ s.getLast?, isBlank c = false) : trim s = s := by
  have hdrop : s.dropWhile isBlank = s := by
    cases s with
    | nil => rfl
    | cons c s => exact List.dropWhile_cons_of_neg (Bool.eq_false_iff.1 (hfront c rfl))
  rw [trim, trimWhile, hdrop]
  refine List.rdropWhile_eq_self_iff.2 fun hs => ?_
  exact Bool.eq_false_iff.1 (hback _ (List.getLast?_eq_some_getLast hs))

namespace Checksum

/-- A text with a number stated behind it. -/
def stamped (body : List Char) (stated : Nat) : List Char := body ++ '*' :: Nat.toDigits 10 stated

theorem isDigit_of_mem_toDigits {n : Nat} {c : Char} (hc : c ∈ Nat.toDigits 10 n) :
    isDecimalDigit c = true :=
  isDecimalDigit_of_isDigit (Nat.isDigit_of_mem_toDigits (by decide) (by decide) hc)

theorem take_stamped (body : List Char) {n : Nat} (hn : n < 10 ^ Integer.maxDigits) :
    take (stamped body n) = .ok (body, some ⟨n, checksumOf body⟩) := by
  have hsplit : split? (stamped body n) = some (body, Nat.toDigits 10 n) :=
    split?_append body Nat.toDigits_ne_nil fun c hc => isDigit_of_mem_toDigits hc
  simp only [take, hsplit, Integer.readDigits_toDigits hn]

theorem trim_stamped {body : List Char} (hfront : ∀ c ∈ body.head?, isBlank c = false) (n : Nat) :
    trim (stamped body n) = stamped body n := by
  refine trim_eq_self (fun c hc => ?_) fun c hc => ?_
  · cases body with
    | nil =>
      cases hc
      decide
    | cons d body => exact hfront c hc
  · have hmem : c ∈ Nat.toDigits 10 n := by
      obtain ⟨d, ds, hds⟩ := List.exists_cons_of_ne_nil (Nat.toDigits_ne_nil (n := n) (b := 10))
      rw [stamped, hds, List.getLast?_append_cons, List.getLast?_cons_cons, ← hds] at hc
      exact List.mem_of_getLast? hc
    exact (digit_plain (isDigit_of_mem_toDigits hmem)).2.1

end Checksum

namespace Line

variable {text body : List Char} {place : Option Int}

/-- A line is read and states a checksum, right or wrong. -/
def States (strict : Bool) (text : List Char) (place : Option Int) (stated : Nat) (ok : Bool) :
    Prop :=
  ∃ l k, parse strict text place = .ok (some l) ∧ l.checksum = some k ∧ k.stated = stated ∧
    k.ok = ok

/-- A line states a checksum, right or wrong, when it is read leniently, and also when it is read
strictly, which is refused only for stray text. -/
structure Reports (text : List Char) (place : Option Int) (stated : Nat) (ok : Bool) : Prop where
  lenient : States false text place stated ok
  strict : ¬ Stray text → States true text place stated ok
  refused : Stray text → ∃ f, parse true text place = .error f ∧ f.kind = .tokenize

/-- The checksum that is taken off a line is in the line that is read. -/
theorem checksum_of_parse {checksum : Option Checksum}
    (htake : Checksum.take (trim text) = .ok (body, checksum)) {strict : Bool} {l : Line}
    (h : parse strict text place = .ok (some l)) : l.checksum = checksum := by
  rw [parse] at h
  simp only [htake] at h
  split at h
  · cases h
  split at h
  · cases h
    rfl
  split at h
  · cases h
    rfl
  split at h
  · cases h
  · cases h
    rfl

theorem reports_stamped (hbreak : '\n' ∉ body) (hfront : ∀ c ∈ body.head?, isBlank c = false)
    {n : Nat} (hn : n < 10 ^ Integer.maxDigits) (place : Option Int) :
    Reports (Checksum.stamped body n) place n (checksumOf body == n) := by
  have htake : Checksum.take (trim (Checksum.stamped body n)) =
      .ok (body, some ⟨n, checksumOf body⟩) := by
    rw [Checksum.trim_stamped hfront, Checksum.take_stamped body hn]
  have hink : hasInk (Checksum.stamped body n) = true :=
    List.any_eq_true.2 ⟨'*', by simp [Checksum.stamped], by decide⟩
  have hline : '\n' ∉ Checksum.stamped body n := by
    intro hmem
    rcases List.mem_append.1 hmem with hmem | hmem
    · exact hbreak hmem
    · exact absurd (plain_checksum (fun _ => Checksum.isDigit_of_mem_toDigits) _ hmem).1 (by decide)
  have hstates : ∀ {strict line?}, parse strict (Checksum.stamped body n) place = .ok line? →
      States strict (Checksum.stamped body n) place n (checksumOf body == n) := by
    intro strict line? h
    rcases parse_of_ink hink strict place with ⟨f, hf⟩ | ⟨l, hl, -⟩
    · rw [hf] at h
      cases h
    · exact ⟨l, _, hl, checksum_of_parse htake hl, rfl, rfl⟩
  obtain ⟨line?, hlenient, hrefused, hstrict⟩ := parse_of_take hline htake place
  exact ⟨hstates hlenient, fun hclean => hstates (hstrict hclean), fun hstray =>
    ⟨_, hrefused hstray, rfl⟩⟩

end Line

/-! ### Detection -/

/-- A text is sent with its checksum behind it, which is less than 256. If it arrives as it was, its
line states that checksum and is right; if one character has others among its low eight bits, the
line states it and is wrong. Lenient reading always says so. Strict reading refuses lines with stray
text, and says so of all others. -/
theorem checksum_detects (body : List Char) (hbreak : '\n' ∉ body)
    (hfront : ∀ c ∈ body.head?, isBlank c = false) (place : Option Int) :
    checksumOf body < 256 ∧
      Line.Reports (Checksum.stamped body (checksumOf body)) place (checksumOf body) true ∧
      ∀ i c d, body[i]? = some c → d.toNat % 256 ≠ c.toNat % 256 → d ≠ '\n' →
        (∀ e ∈ (body.set i d).head?, isBlank e = false) →
        Line.Reports (Checksum.stamped (body.set i d) (checksumOf body)) place
          (checksumOf body) false := by
  have hsmall : checksumOf body < 10 ^ Integer.maxDigits := calc
    checksumOf body < 256 := checksumOf_lt body
    _ ≤ 10 ^ 3 := by decide
    _ ≤ 10 ^ Integer.maxDigits := Nat.pow_le_pow_right (by decide) (by decide)
  refine ⟨checksumOf_lt body, ?_, fun i c d hc hdiffer hd hfront' => ?_⟩
  · have hreports := Line.reports_stamped hbreak hfront hsmall place
    rwa [beq_self_eq_true] at hreports
  · have hbreak' : '\n' ∉ body.set i d := fun hmem =>
      (List.mem_or_eq_of_mem_set hmem).elim hbreak fun h => hd h.symm
    have hwrong : (checksumOf (body.set i d) == checksumOf body) = false :=
      beq_eq_false_iff_ne.2 fun h => hdiffer ((checksumOf_set hc d).1 h)
    have hreports := Line.reports_stamped hbreak' hfront' hsmall place
    rwa [hwrong] at hreports

/-- The text of a line that ends in something like a checksum, and in a space. -/
def starredText : List Char := "G1 X2 (a)*17 ".toList

/-- It is sent with 112 behind it; with a `3` for the `2` in the line, that is wrong. -/
theorem checksum_detects_starred :
    Line.Reports (Checksum.stamped starredText 112) (some 4) 112 true ∧
      Line.Reports (Checksum.stamped (starredText.set 4 '3') 112) (some 4) 112 false := by
  have hsum : checksumOf starredText = 112 := by decide
  have hfront : ∀ c ∈ starredText.head?, isBlank c = false := by
    rintro c ⟨⟩
    decide
  have hfront' : ∀ c ∈ (starredText.set 4 '3').head?, isBlank c = false := by
    rintro c ⟨⟩
    decide
  obtain ⟨-, hright, hwrong⟩ := checksum_detects starredText (by decide) hfront (some 4)
  have hwrong := hwrong 4 '2' '3' (by decide) (by decide) (by decide) hfront'
  rw [hsum] at hright hwrong
  exact ⟨hright, hwrong⟩

end Gcode
