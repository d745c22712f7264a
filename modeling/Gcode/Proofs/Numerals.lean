import Gcode.Word
import Mathlib.Algebra.Group.Nat.Defs
import Mathlib.Data.List.Induction
import Mathlib.Data.List.TakeWhile

/-!
Plain numerals: runs of the digits `0` to `9`. They are read as the numbers that they denote unless
they are too long, and the numeral that is written for a number is the one that begins with no zero
to spare (`toDigits_ofDigitChars_iff`).
-/

namespace Gcode

open Gcode.Text

/-! ### Digits -/

theorem digitValue?_of_isDigit {c : Char} (h : c.isDigit = true) :
    digitValue? c = some (c.toNat - '0'.toNat) := by
  obtain ⟨hlow, hhigh⟩ := Char.isDigit_iff_toNat.1 h
  have hfirst : (decide (0x30 ≤ c.toNat) && decide (c.toNat < 0x30 + 10)) = true := by
    simp only [Bool.and_eq_true, decide_eq_true_eq]
    exact ⟨hlow, Nat.lt_succ_of_le hhigh⟩
  have hfind : digitZeros.find? (fun z => decide (z ≤ c.toNat) && decide (c.toNat < z + 10)) =
      some 0x30 := List.find?_cons_of_pos hfirst
  rw [digitValue?, hfind]
  rfl

theorem isDecimalDigit_of_isDigit {c : Char} (h : c.isDigit = true) : isDecimalDigit c = true := by
  rw [isDecimalDigit, digitValue?_of_isDigit h]
  rfl

theorem isBlank_of_isDigit {c : Char} (h : c.isDigit = true) : isBlank c = false := by
  obtain ⟨hlow, hhigh⟩ := Char.isDigit_iff_toNat.1 h
  have hapart : ∀ r ∈ blankRanges, r.2 < '0'.toNat ∨ '9'.toNat < r.1 := by decide
  refine Bool.eq_false_iff.2 fun hblank => ?_
  obtain ⟨r, hr, hmem⟩ := List.any_eq_true.1 hblank
  simp only [Bool.and_eq_true, decide_eq_true_eq] at hmem
  rcases hapart r hr with hbelow | habove
  · omega
  · omega

theorem isPadding_of_isDigit {c : Char} (h : c.isDigit = true) : isPadding c = false := by
  rw [isPadding, isBlank_of_isDigit h, Bool.false_and]

theorem trimWhile_of_none {p : Char → Bool} {s : List Char} (h : ∀ c ∈ s, p c = false) :
    trimWhile p s = s := by
  have hdrop : ∀ {t : List Char}, (∀ c ∈ t, p c = false) → t.dropWhile p = t := by
    intro t ht
    cases t with
    | nil => rfl
    | cons c t => exact List.dropWhile_cons_of_neg (by simp [ht c List.mem_cons_self])
  rw [trimWhile, dropEndWhile, hdrop h, hdrop fun c hc => h c (List.mem_reverse.1 hc),
    List.reverse_reverse]

namespace Integer

variable {s : List Char}

/-- A run of digits gives their values. -/
theorem digitRun?_eq (value : Char → Nat) : ∀ {s : List Char}, s ≠ [] →
    (∀ c ∈ s, digitValue? c = some (value c)) → digitRun? s = some (s.map value)
  | [], h, _ => absurd rfl h
  | [c], _, h => by
    rw [digitRun?, h c (List.mem_singleton_self c)]
    rfl
  | c :: c' :: s, _, h => by
    obtain ⟨hc, hs⟩ := List.forall_mem_cons.1 h
    have hunder : ∀ t, c' :: s ≠ '_' :: t := by
      rintro t h
      cases h
      have hnone : digitValue? '_' = none := by decide
      rw [hs '_' List.mem_cons_self] at hnone
      cases hnone
    rw [digitRun?, hc, digitRun?_eq value (List.cons_ne_nil c' s) hs]
    · rfl
    · exact nofun
    · exact hunder

/-- Digits of any script are read unless there are too many. -/
theorem readDigits_eq (value : Char → Nat) (hs : s ≠ [])
    (h : ∀ c ∈ s, digitValue? c = some (value c)) :
    readDigits s = if maxDigits < s.length then .error (.tooLong s.length)
      else .ok (ofDigits (s.map value)) := by
  have hall : ∀ c ∈ s, isDigitOrUnderscore c = true := by
    intro c hc
    rw [isDigitOrUnderscore, isDecimalDigit, h c hc]
    rfl
  rw [readDigits, List.takeWhile_eq_self_iff.2 hall, List.dropWhile_eq_nil_iff.2 hall,
    digitRun?_eq value hs h]
  dsimp only
  rw [List.length_map]
  rfl

/-- A plain numeral is read as the number that it denotes. -/
theorem readDigits_plain (hs : s ≠ []) (h : ∀ c ∈ s, c.isDigit = true)
    (hlength : s.length ≤ maxDigits) : readDigits s = .ok (Nat.ofDigitChars 10 s 0) := by
  rw [readDigits_eq _ hs fun c hc => digitValue?_of_isDigit (h c hc),
    if_neg (Nat.not_lt_of_le hlength), ofDigits, List.foldl_map, Nat.ofDigitChars]
  simp only [Nat.mul_comm]

/-- The numeral of a number is read as the number. -/
theorem readDigits_toDigits {n : Nat} (h : n < 10 ^ maxDigits) :
    readDigits (Nat.toDigits 10 n) = .ok n := by
  have hdigits : ∀ c ∈ Nat.toDigits 10 n, c.isDigit = true := fun c hc =>
    Nat.isDigit_of_mem_toDigits (by decide) (by decide) hc
  have hlength : (Nat.toDigits 10 n).length ≤ maxDigits :=
    (Nat.length_toDigits_le_iff (by decide) (by decide)).2 h
  rw [readDigits_plain Nat.toDigits_ne_nil hdigits hlength, Nat.ofDigitChars_ten_toDigits]

/-- A plain numeral has neither sign nor white space. -/
theorem read_plain (hs : s ≠ []) (h : ∀ c ∈ s, c.isDigit = true) (hlength : s.length ≤ maxDigits) :
    read s = .ok (Nat.ofDigitChars 10 s 0) := by
  have htrim : trimWhile isPadding s = s :=
    trimWhile_of_none fun c hc => isPadding_of_isDigit (h c hc)
  have hsign : splitSign s = (false, s) := by
    obtain ⟨c, s, rfl⟩ := List.exists_cons_of_ne_nil hs
    have hc := h c List.mem_cons_self
    rw [splitSign.eq_def]
    split
    · rename_i hcons
      cases hcons
      cases hc
    · rename_i hcons
      cases hcons
      cases hc
    · rfl
  rw [read, htrim, hsign]
  simp only [readDigits_plain hs h hlength]
  rfl

end Integer

/-- A plain numeral after a letter is read as an integer. -/
theorem Value.read_plain {s : List Char} (hs : s ≠ []) (h : ∀ c ∈ s, c.isDigit = true)
    (hlength : s.length ≤ Integer.maxDigits) : read s = .int (Nat.ofDigitChars 10 s 0) := by
  rw [read, Integer.read_plain hs h hlength]

/-! ### Zeros to spare -/

/-- A numeral that begins with no zero, or is the zero. -/
def IsTrimmed (s : List Char) : Prop := s.head? = some '0' → s = ['0']

instance : DecidablePred IsTrimmed := fun _ => inferInstanceAs (Decidable (_ → _))

theorem ofDigitChars_lt {s : List Char} (h : ∀ c ∈ s, c.isDigit = true) :
    Nat.ofDigitChars 10 s 0 < 10 ^ s.length := by
  induction s using List.reverseRecOn with
  | nil => exact Nat.one_pos
  | append_singleton s c ih =>
    have hs := ih fun d hd => h d (List.mem_append_left _ hd)
    have hc := (Char.isDigit_iff_toNat.1 (h c (List.mem_append_right _ List.mem_cons_self))).2
    have hvalue : c.toNat - '0'.toNat < 10 := by
      have hnine : '9'.toNat = 57 := rfl
      have hzero : '0'.toNat = 48 := rfl
      omega
    rw [Nat.ofDigitChars_append, Nat.ofDigitChars_cons, Nat.ofDigitChars_nil, List.length_append,
      List.length_singleton, Nat.pow_succ]
    omega

theorem ofDigitChars_pos {c : Char} {s : List Char} (hc : c.isDigit = true) (hne : c ≠ '0') :
    0 < Nat.ofDigitChars 10 (c :: s) 0 := by
  have hvalue : 0 < c.toNat - '0'.toNat := by
    have hlow := (Char.isDigit_iff_toNat.1 hc).1
    have hdiff : c.toNat ≠ '0'.toNat := fun h => hne (Char.toNat_inj.1 h)
    omega
  rw [Nat.ofDigitChars_cons, Nat.mul_zero, Nat.zero_add, Nat.ofDigitChars_eq_ofDigitChars_zero]
  exact Nat.add_pos_left (Nat.mul_pos (Nat.pow_pos (by decide)) hvalue) _

/-- A digit is what is written for its value. -/
theorem toDigits_digit {c : Char} (hc : c.isDigit = true) :
    Nat.toDigits 10 (c.toNat - '0'.toNat) = [c] := by
  obtain ⟨hlow, hhigh⟩ := Char.isDigit_iff_toNat.1 hc
  have hnine : '9'.toNat = 57 := rfl
  have hzero : '0'.toNat = 48 := rfl
  have hvalue : c.toNat - '0'.toNat < 10 := by omega
  rw [Nat.toDigits_of_lt_base hvalue, List.cons.injEq]
  refine ⟨Char.toNat_inj.1 ?_, rfl⟩
  rw [Nat.toNat_digitChar_of_lt_ten hvalue]
  omega

/-- What is written for a number that begins with a digit other than zero is the numeral itself. -/
theorem toDigits_ofDigitChars {c : Char} {s : List Char} (hdigits : ∀ d ∈ c :: s, d.isDigit = true)
    (hne : c ≠ '0') : Nat.toDigits 10 (Nat.ofDigitChars 10 (c :: s) 0) = c :: s := by
  induction s using List.reverseRecOn with
  | nil =>
    rw [Nat.ofDigitChars_cons, Nat.ofDigitChars_nil, Nat.mul_zero, Nat.zero_add]
    exact toDigits_digit (hdigits c List.mem_cons_self)
  | append_singleton s d ih =>
    rw [← List.cons_append] at hdigits ⊢
    have hd := hdigits d (List.mem_append_right _ List.mem_cons_self)
    have hpos := ofDigitChars_pos (s := s) (hdigits c (by simp)) hne
    obtain ⟨hlow, hhigh⟩ := Char.isDigit_iff_toNat.1 hd
    have hnine : '9'.toNat = 57 := rfl
    have hzero : '0'.toNat = 48 := rfl
    rw [Nat.ofDigitChars_append, Nat.ofDigitChars_cons, Nat.ofDigitChars_nil,
      ← Nat.toDigits_append_toDigits (by decide) hpos (by omega), toDigits_digit hd,
      ih fun x hx => hdigits x (List.mem_append_left _ hx)]

/-- A numeral is what is written for its number exactly if it begins with no zero to spare. -/
theorem toDigits_ofDigitChars_iff {s : List Char} (hs : s ≠ [])
    (hdigits : ∀ c ∈ s, c.isDigit = true) :
    Nat.toDigits 10 (Nat.ofDigitChars 10 s 0) = s ↔ IsTrimmed s := by
  obtain ⟨c, s, rfl⟩ := List.exists_cons_of_ne_nil hs
  by_cases hc : c = '0'
  · subst hc
    have hvalue : Nat.ofDigitChars 10 ('0' :: s) 0 = Nat.ofDigitChars 10 s 0 := rfl
    cases s with
    | nil => exact iff_of_true rfl fun _ => rfl
    | cons d s =>
      refine iff_of_false (fun h => ?_) fun h => by cases h rfl
      -- the number is too small to need so many digits
      have hsmall := ofDigitChars_lt (s := d :: s) fun x hx =>
        hdigits x (List.mem_cons_of_mem _ hx)
      rw [← hvalue, ← Nat.length_toDigits_le_iff (by decide) (by simp), h] at hsmall
      exact absurd hsmall (Nat.not_succ_le_self _)
  · refine iff_of_true (toDigits_ofDigitChars hdigits hc) fun h => ?_
    exact absurd (Option.some.inj h) hc

end Gcode
