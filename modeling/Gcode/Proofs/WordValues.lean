import Gcode.Proofs.Rounding
import Gcode.Proofs.WellFormed

/-!
What is read behind a letter. The text of a word value has digits, signs and points only. Such a
text is read as a number exactly if it is a numeral, which is a sign, digits and at most one point:
without a point and if it is not too long as the integer that it denotes, else as the double nearest
to that number (`Value.read_numeral`). Any other text is kept as it is (`Value.read_other`). So the
characters decide which of the three kinds a value is of (`Value.read_kinds`).
-/

namespace Gcode

open Gcode.Text

/-! ### Numerals -/

/-- The sign of a numeral. -/
inductive Numeral.Sign where
  | absent
  | plus
  | minus
  deriving DecidableEq

namespace Numeral.Sign

def chars : Sign → List Char
  | .absent => []
  | .plus => ['+']
  | .minus => ['-']

def isMinus (s : Sign) : Bool := s == .minus

end Numeral.Sign

/-- The digits behind a point with the point, if there is one. -/
def Numeral.pointed : Option (List Char) → List Char
  | some s => '.' :: s
  | none => []

@[simp]
theorem Numeral.pointed_none : pointed none = [] := rfl

@[simp]
theorem Numeral.pointed_some (s : List Char) : pointed (some s) = '.' :: s := rfl

/-- A sign and digits with at most one point among them or around them. -/
structure Numeral where
  sign : Numeral.Sign
  whole : List Char
  /-- The digits behind the point, if there is a point. -/
  fraction : Option (List Char)
  isDigit : ∀ c ∈ whole ++ fraction.getD [], c.isDigit = true
  ne_nil : whole ++ fraction.getD [] ≠ []

namespace Numeral

/-- The digits of a numeral, on both sides of the point. -/
def digits (a : Numeral) : List Char := a.whole ++ a.fraction.getD []

/-- The number of digits behind the point. -/
def places (a : Numeral) : Nat := (a.fraction.getD []).length

/-- The number that the digits denote without the point. -/
def natural (a : Numeral) : Nat := Nat.ofDigitChars 10 a.digits 0

/-- The characters behind the sign. -/
def body (a : Numeral) : List Char := a.whole ++ pointed a.fraction

def text (a : Numeral) : List Char := a.sign.chars ++ a.body

/-- The number that a numeral denotes. -/
def value (a : Numeral) : ℚ :=
  let q : ℚ := a.natural / 10 ^ a.places
  if a.sign.isMinus then -q else q

theorem isDigit_whole (a : Numeral) : ∀ c ∈ a.whole, c.isDigit = true := fun c hc =>
  a.isDigit c (List.mem_append_left _ hc)

end Numeral

/-! ### Characters of values -/

theorem isBlank_of_isValueChar {c : Char} (h : Scan.isValueChar c = true) : isBlank c = false := by
  simp only [Scan.isValueChar, Bool.or_eq_true, beq_iff_eq] at h
  rcases h with ((h | rfl) | rfl) | rfl
  · exact isBlank_of_isDigit h
  all_goals decide

theorem isPadding_of_isValueChar {c : Char} (h : Scan.isValueChar c = true) :
    isPadding c = false := by
  rw [isPadding, isBlank_of_isValueChar h, Bool.false_and]

theorem isDigit_of_isDecimalDigit {c : Char} (hc : Scan.isValueChar c = true)
    (h : isDecimalDigit c = true) : c.isDigit = true := by
  simp only [Scan.isValueChar, Bool.or_eq_true, beq_iff_eq] at hc
  rcases hc with ((hc | rfl) | rfl) | rfl
  · exact hc
  all_goals exact absurd h (by decide)

theorem isValueChar_of_isDigit {c : Char} (h : c.isDigit = true) : Scan.isValueChar c = true := by
  rw [Scan.isValueChar, h]
  rfl

theorem ne_underscore_of_isValueChar {c : Char} (h : Scan.isValueChar c = true) : c ≠ '_' := by
  rintro rfl
  revert h
  decide

theorem Numeral.isValueChar_text (a : Numeral) : ∀ c ∈ a.text, Scan.isValueChar c = true := by
  have hsign : ∀ c ∈ a.sign.chars, Scan.isValueChar c = true := by
    cases a.sign <;> simp [Numeral.Sign.chars, Scan.isValueChar]
  have hwhole : ∀ c ∈ a.whole, Scan.isValueChar c = true := fun c hc =>
    isValueChar_of_isDigit (a.isDigit_whole c hc)
  intro c hc
  rcases List.mem_append.1 hc with hc | hc
  · exact hsign c hc
  · have hdigit := a.isDigit
    rw [Numeral.body] at hc
    cases hfraction : a.fraction with
    | none =>
      rw [hfraction, pointed_none, List.append_nil] at hc
      exact hwhole c hc
    | some s =>
      rw [hfraction] at hc hdigit
      rcases List.mem_append.1 hc with hc | hc
      · exact hwhole c hc
      · rcases List.mem_cons.1 hc with rfl | hc
        · decide
        · exact isValueChar_of_isDigit (hdigit c (List.mem_append_right _ hc))

/-! ### Taking numerals apart -/

theorem Integer.splitSign_eq_self {s : List Char} (h : ∀ c ∈ s.head?, c.isDigit = true ∨ c = '.') :
    splitSign s = (false, s) := by
  rw [splitSign.eq_def]
  split
  · exact absurd (h '-' rfl) (by decide)
  · exact absurd (h '+' rfl) (by decide)
  · rfl

namespace Numeral

variable {s : List Char} (a : Numeral)

theorem head?_body : ∀ c ∈ a.body.head?, c.isDigit = true ∨ c = '.' := by
  intro c hc
  rw [body] at hc
  cases hwhole : a.whole with
  | cons d s =>
    rw [hwhole] at hc
    cases hc
    exact .inl (a.isDigit_whole c (hwhole ▸ List.mem_cons_self))
  | nil =>
    rw [hwhole] at hc
    cases hfraction : a.fraction with
    | none =>
      rw [hfraction] at hc
      cases hc
    | some s =>
      rw [hfraction] at hc
      cases hc
      exact .inr rfl

theorem splitSign_text : Integer.splitSign a.text = (a.sign.isMinus, a.body) := by
  rw [text]
  cases a.sign with
  | absent => exact Integer.splitSign_eq_self a.head?_body
  | plus => rfl
  | minus => rfl

/-- What is behind the sign falls into the digits before the point and the rest. -/
theorem takeWhile_body {p : Char → Bool} (hp : ∀ c, c.isDigit = true → p c = true)
    (hpoint : p '.' = false) :
    a.body.takeWhile p = a.whole ∧ a.body.dropWhile p = pointed a.fraction := by
  have hwhole : ∀ c ∈ a.whole, p c = true := fun c hc => hp c (a.isDigit_whole c hc)
  rw [body, List.takeWhile_append_of_pos hwhole, List.dropWhile_append_of_pos hwhole]
  cases a.fraction with
  | none => exact ⟨List.append_nil _, rfl⟩
  | some s =>
    rw [pointed_some, List.takeWhile_cons_of_neg (by rw [hpoint]; decide),
      List.dropWhile_cons_of_neg (by rw [hpoint]; decide)]
    exact ⟨List.append_nil _, rfl⟩

/-- A text is the text of one numeral at most. -/
theorem text_injective {a b : Numeral} (h : a.text = b.text) : a.value = b.value := by
  have hsplit := congrArg Integer.splitSign h
  rw [splitSign_text, splitSign_text, Prod.mk.injEq] at hsplit
  obtain ⟨hsign, hbody⟩ := hsplit
  have ha := a.takeWhile_body (fun _ h => h) (by decide : Char.isDigit '.' = false)
  have hb := b.takeWhile_body (fun _ h => h) (by decide : Char.isDigit '.' = false)
  rw [hbody] at ha
  have hwhole : a.whole = b.whole := ha.1.symm.trans hb.1
  have hfraction : a.fraction = b.fraction := by
    have hrest := ha.2.symm.trans hb.2
    cases hfa : a.fraction with
    | none =>
      cases hfb : b.fraction with
      | none => rfl
      | some s =>
        rw [hfa, hfb] at hrest
        cases hrest
    | some s =>
      cases hfb : b.fraction with
      | none =>
        rw [hfa, hfb] at hrest
        cases hrest
      | some t =>
        rw [hfa, hfb] at hrest
        cases hrest
        rfl
  simp only [value, natural, digits, places, hsign, hwhole, hfraction]

end Numeral

/-! ### Integers -/

namespace Numeral

variable (a : Numeral)

/-- Only what has no point and is not too long is an integer. -/
def IsShort : Prop := a.fraction = none ∧ a.whole.length ≤ Integer.maxDigits

instance : Decidable a.IsShort := inferInstanceAs (Decidable (_ ∧ _))

/-- The integer that the digits denote, with the sign. -/
def integer : Int := if a.sign.isMinus then -(a.natural : Int) else a.natural

theorem isDigitOrUnderscore_of_isDigit {c : Char} (h : c.isDigit = true) :
    Integer.isDigitOrUnderscore c = true := by
  rw [Integer.isDigitOrUnderscore, isDecimalDigit_of_isDigit h]
  rfl

theorem readDigits_body (h : a.IsShort) : Integer.readDigits a.body = .ok a.natural := by
  obtain ⟨hfraction, hlength⟩ := h
  have hwhole : a.whole ≠ [] := by
    intro hnil
    apply a.ne_nil
    rw [hnil, hfraction]
    rfl
  have hbody : a.body = a.whole := by rw [body, hfraction, pointed_none, List.append_nil]
  have hdigits : a.digits = a.whole := by
    rw [digits, hfraction]
    exact List.append_nil _
  rw [hbody, Integer.readDigits_plain hwhole a.isDigit_whole hlength, natural, hdigits]

theorem readDigits_body_error (h : ¬ a.IsShort) : ∃ r, Integer.readDigits a.body = .error r := by
  obtain ⟨htake, hdrop⟩ := a.takeWhile_body (p := Integer.isDigitOrUnderscore)
    (fun _ => isDigitOrUnderscore_of_isDigit) (by decide)
  rw [Integer.readDigits, htake, hdrop]
  cases hrun : Integer.digitRun? a.whole with
  | none => exact ⟨_, rfl⟩
  | some ds =>
    by_cases hlong : Integer.maxDigits < ds.length
    · exact ⟨_, if_pos hlong⟩
    · dsimp only
      rw [if_neg hlong]
      cases hfraction : a.fraction with
      | some s => exact ⟨_, rfl⟩
      | none =>
        -- without a point the run is as long as the numeral
        have hwhole : a.whole ≠ [] := by
          intro hnil
          rw [hnil] at hrun
          cases hrun
        rw [Integer.digitRun?_eq _ hwhole fun c hc =>
          digitValue?_of_isDigit (a.isDigit_whole c hc)] at hrun
        have hlength : ds.length = a.whole.length := by
          rw [← Option.some.inj hrun, List.length_map]
        exact absurd ⟨hfraction, hlength ▸ Nat.le_of_not_lt hlong⟩ h

end Numeral

/-! ### Doubles -/

namespace Decimal

variable {s : List Char}

/-- A decimal with some of its digits behind the point. -/
theorem ratio_places (n k : Nat) : ratio ⟨n, -(k : Int)⟩ = (n, 10 ^ k) := by
  cases k with
  | zero =>
    have hratio : ratio ⟨n, -((0 : Nat) : Int)⟩ = (n * 1, 1) := rfl
    rw [hratio, Nat.mul_one, Nat.pow_zero]
  | succ k =>
    rw [ratio, if_neg (by dsimp only; omega), Nat.pow_eq, Int.neg_neg, Int.toNat_natCast]

theorem digitsValue_of_isDigit (h : ∀ c ∈ s, c.isDigit = true) :
    digitsValue s = Nat.ofDigitChars 10 s 0 := by
  rw [digitsValue, Nat.ofDigitChars]
  refine List.foldl_ext _ _ _ fun n c hc => ?_
  rw [digitValue?_of_isDigit (h c hc), Nat.mul_comm]

theorem underscoresFit_of_isValueChar (h : ∀ c ∈ s, Scan.isValueChar c = true)
    (afterDigit : Bool) : underscoresFit afterDigit s = true := by
  induction s generalizing afterDigit with
  | nil => rfl
  | cons c s ih =>
    obtain ⟨hc, hs⟩ := List.forall_mem_cons.1 h
    rw [underscoresFit]
    · exact ih hs _
    · exact ne_underscore_of_isValueChar hc

/-- A text of value characters is a double only if it is digits with a point. -/
theorem read?_of_isValueChar (h : ∀ c ∈ s, Scan.isValueChar c = true) :
    read? s = (readUnsigned? (Integer.splitSign s).2).map (round (Integer.splitSign s).1) := by
  have htrim : trimWhile isPadding s = s :=
    trimWhile_of_none fun c hc => isPadding_of_isValueChar (h c hc)
  have hfilter : s.filter (· != '_') = s :=
    List.filter_eq_self.2 fun c hc => by simpa using ne_underscore_of_isValueChar (h c hc)
  have hbody : ∀ c ∈ (Integer.splitSign s).2, Scan.isValueChar c = true := fun c hc =>
    h c (mem_splitSign hc)
  simp only [read?, htrim, underscoresFit_of_isValueChar h, hfilter, if_true,
    named?_eq_none hbody]

/-- The digits of a numeral, read with its point. -/
theorem readUnsigned?_body (a : Numeral) :
    readUnsigned? a.body = some ⟨a.natural, -(a.places : Int)⟩ := by
  obtain ⟨htake, hdrop⟩ := a.takeWhile_body (fun _ => isDecimalDigit_of_isDigit) (by decide)
  have hvalue : digitsValue a.digits = a.natural := digitsValue_of_isDigit a.isDigit
  have hne : a.digits.isEmpty = false := List.isEmpty_eq_false_iff.2 a.ne_nil
  have hclamp (n : Nat) : clampExponent n 0 = 0 := by
    rw [clampExponent]
    omega
  rw [readUnsigned?, htake, hdrop]
  -- the match on the rest is decided by whether there is a point
  cases hfraction : a.fraction with
  | none =>
    have hdigits : a.digits = a.whole ++ [] := by
      rw [Numeral.digits, hfraction]
      rfl
    have hplaces : a.places = 0 := by
      rw [Numeral.places, hfraction]
      rfl
    simp only [Numeral.pointed_none, ← hdigits, hne, readExponent?, hvalue, hclamp, hplaces,
      Bool.false_eq_true, if_false, List.length_nil]
    rfl
  | some s =>
    have hdigits : a.digits = a.whole ++ s := by
      rw [Numeral.digits, hfraction]
      rfl
    have hplaces : a.places = s.length := by
      rw [Numeral.places, hfraction]
      rfl
    have hs : ∀ c ∈ s, isDecimalDigit c = true := fun c hc =>
      isDecimalDigit_of_isDigit
        (a.isDigit c (List.mem_append_right _ (by rw [hfraction]; exact hc)))
    simp only [Numeral.pointed_some, List.takeWhile_eq_self_iff.2 hs,
      List.dropWhile_eq_nil_iff.2 hs, ← hdigits, hne, readExponent?, hvalue, hclamp, hplaces,
      Bool.false_eq_true, if_false, Int.zero_sub]

/-- What is read has digits on one side of the point, and an exponent or nothing behind them. -/
theorem of_readUnsigned? (h : (readUnsigned? s).isSome = true) :
    ∃ fraction : Option (List Char), ∃ rest,
      s = s.takeWhile isDecimalDigit ++ Numeral.pointed fraction ++ rest ∧
      (∀ c ∈ fraction.getD [], isDecimalDigit c = true) ∧
      s.takeWhile isDecimalDigit ++ fraction.getD [] ≠ [] ∧ (readExponent? rest).isSome = true := by
  have hsplit := List.takeWhile_append_dropWhile (p := isDecimalDigit) (l := s)
  rw [readUnsigned?] at h
  split at h
  rename_i fraction rest hmatch
  dsimp only at h
  have hread : s.takeWhile isDecimalDigit ++ fraction ≠ [] ∧
      (readExponent? rest).isSome = true := by
    cases hempty : (s.takeWhile isDecimalDigit ++ fraction).isEmpty with
    | true =>
      rw [hempty] at h
      cases h
    | false =>
      refine ⟨List.isEmpty_eq_false_iff.1 hempty, ?_⟩
      cases hrest : readExponent? rest with
      | some e => rfl
      | none =>
        rw [hempty, hrest] at h
        cases h
  split at hmatch
  · rename_i r hdrop
    cases hmatch
    refine ⟨some (r.takeWhile isDecimalDigit), r.dropWhile isDecimalDigit, ?_,
      fun c hc => List.mem_takeWhile_imp hc, hread⟩
    rw [Numeral.pointed_some, List.append_assoc, List.cons_append, List.takeWhile_append_dropWhile,
      ← hdrop, hsplit]
  · cases hmatch
    refine ⟨none, s.dropWhile isDecimalDigit, ?_, nofun, hread⟩
    rw [Numeral.pointed_none, List.append_nil, hsplit]

/-- Nothing but digits with at most one point is read. -/
theorem exists_of_readUnsigned? (h : ∀ c ∈ s, Scan.isValueChar c = true)
    (hread : (readUnsigned? s).isSome = true) (sign : Numeral.Sign) :
    ∃ a : Numeral, a.sign = sign ∧ a.body = s := by
  obtain ⟨fraction, rest, hs, hfraction, hne, hrest⟩ := of_readUnsigned? hread
  generalize hwhole : s.takeWhile isDecimalDigit = whole at *
  have hchar : ∀ c ∈ whole ++ Numeral.pointed fraction ++ rest, Scan.isValueChar c = true := hs ▸ h
  -- an exponent would begin with a letter
  have hnil : rest = [] := by
    cases rest with
    | nil => rfl
    | cons c t =>
      have hc := hchar c (List.mem_append_right _ List.mem_cons_self)
      rw [readExponent?, if_neg] at hrest
      · cases hrest
      · intro hexp
        rw [Bool.or_eq_true, beq_iff_eq, beq_iff_eq] at hexp
        rcases hexp with rfl | rfl <;> exact absurd hc (by decide)
  subst hnil
  rw [List.append_nil] at hs hchar
  have hdigit : ∀ c ∈ whole ++ fraction.getD [], c.isDigit = true := by
    intro c hc
    rcases List.mem_append.1 hc with hc | hc
    · refine isDigit_of_isDecimalDigit (hchar c (List.mem_append_left _ hc)) ?_
      rw [← hwhole] at hc
      exact List.mem_takeWhile_imp hc
    · refine isDigit_of_isDecimalDigit (hchar c (List.mem_append_right _ ?_)) (hfraction c hc)
      cases fraction with
      | none => cases hc
      | some t => exact List.mem_cons_of_mem _ hc
  exact ⟨⟨sign, whole, fraction, hdigit, hne⟩, rfl, hs.symm⟩

end Decimal

/-! ### The value behind a letter -/

theorem Integer.splitSign_cases (s : List Char) :
    ∃ sign : Numeral.Sign, s = sign.chars ++ (splitSign s).2 ∧ (splitSign s).1 = sign.isMinus := by
  rw [splitSign.eq_def]
  split
  · exact ⟨.minus, rfl, rfl⟩
  · exact ⟨.plus, rfl, rfl⟩
  · exact ⟨.absent, rfl, rfl⟩

/-- Digits that are read as an integer are a numeral without a point. -/
theorem Integer.exists_of_readDigits {s : List Char} {n : Nat}
    (h : ∀ c ∈ s, Scan.isValueChar c = true) (hread : readDigits s = .ok n)
    (sign : Numeral.Sign) : ∃ a : Numeral, a.sign = sign ∧ a.body = s := by
  rw [readDigits] at hread
  split at hread
  · cases hread
  · rename_i ds hrun
    split_ifs at hread with hlong hdrop
    have hall : ∀ c ∈ s, isDigitOrUnderscore c = true := by
      rwa [List.isEmpty_iff, List.dropWhile_eq_nil_iff] at hdrop
    have hdigit : ∀ c ∈ s, c.isDigit = true := by
      intro c hc
      have hrun := hall c hc
      rw [isDigitOrUnderscore, Bool.or_eq_true, beq_iff_eq] at hrun
      exact isDigit_of_isDecimalDigit (h c hc)
        (hrun.resolve_right (ne_underscore_of_isValueChar (h c hc)))
    refine ⟨⟨sign, s, none, ?_, ?_⟩, rfl, List.append_nil s⟩
    · simpa using hdigit
    · rintro hnil
      rw [List.append_eq_nil_iff] at hnil
      rw [hnil.1] at hrun
      cases hrun

namespace Value

/-- A numeral is read as an integer if it has no point and is not too long, else as the nearest
double. -/
theorem read_numeral (a : Numeral) : read a.text =
    if a.IsShort then .int a.integer
    else .float (Binary64.ofRatio a.sign.isMinus a.natural (10 ^ a.places)) := by
  have htrim : trimWhile isPadding a.text = a.text :=
    trimWhile_of_none fun c hc => isPadding_of_isValueChar (a.isValueChar_text c hc)
  rw [read, Integer.read, htrim, a.splitSign_text]
  by_cases hshort : a.IsShort
  · simp only [a.readDigits_body hshort, if_pos hshort]
    rfl
  · obtain ⟨r, hr⟩ := a.readDigits_body_error hshort
    simp only [hr, if_neg hshort, Decimal.read?_of_isValueChar a.isValueChar_text, a.splitSign_text,
      Decimal.readUnsigned?_body, Option.map_some, Decimal.round, Decimal.ratio_places]

/-- What is no numeral is kept as it is. -/
theorem read_other {r : List Char} (h : ∀ c ∈ r, Scan.isValueChar c = true)
    (hnone : ¬ ∃ a : Numeral, a.text = r) : read r = .text (String.ofList r) := by
  obtain ⟨sign, hr, hminus⟩ := Integer.splitSign_cases r
  have hbody : ∀ c ∈ (Integer.splitSign r).2, Scan.isValueChar c = true := fun c hc =>
    h c (mem_splitSign hc)
  have hno : ¬ ∃ a : Numeral, a.sign = sign ∧ a.body = (Integer.splitSign r).2 := by
    rintro ⟨a, hsign, ha⟩
    refine hnone ⟨a, ?_⟩
    rw [Numeral.text, hsign, ha, ← hr]
  have htrim : trimWhile isPadding r = r :=
    trimWhile_of_none fun c hc => isPadding_of_isValueChar (h c hc)
  have hinteger : ∃ e, Integer.read r = .error e := by
    rw [Integer.read, htrim]
    cases hread : Integer.readDigits (Integer.splitSign r).2 with
    | error e => exact ⟨e, by simp only [hread]⟩
    | ok n => exact absurd (Integer.exists_of_readDigits hbody hread sign) hno
  have hdouble : Decimal.readUnsigned? (Integer.splitSign r).2 = none := by
    rw [← Option.not_isSome_iff_eq_none]
    exact fun hsome => hno (Decimal.exists_of_readUnsigned? hbody hsome sign)
  obtain ⟨e, he⟩ := hinteger
  rw [read, he, Decimal.read?_of_isValueChar h, hdouble]
  rfl

/-- What is read is decided by the numeral of a text: a short one, another one, or none. -/
theorem read_by_numeral {r : List Char} (h : ∀ c ∈ r, Scan.isValueChar c = true) :
    (∃ a : Numeral, a.text = r ∧ a.IsShort ∧ read r = .int a.integer) ∨
    (∃ a : Numeral, a.text = r ∧ ¬ a.IsShort ∧
      read r = .float (Binary64.ofRatio a.sign.isMinus a.natural (10 ^ a.places))) ∨
    (¬ ∃ a : Numeral, a.text = r) ∧ read r = .text (String.ofList r) := by
  by_cases hnumeral : ∃ a : Numeral, a.text = r
  · obtain ⟨a, rfl⟩ := hnumeral
    by_cases hshort : a.IsShort
    · exact .inl ⟨a, rfl, hshort, by rw [read_numeral, if_pos hshort]⟩
    · exact .inr (.inl ⟨a, rfl, hshort, by rw [read_numeral, if_neg hshort]⟩)
  · exact .inr (.inr ⟨hnumeral, read_other h hnumeral⟩)

/-! ### Kinds of values -/

/-- The text of an integer: a sign, if there is one, and 1 to 4300 digits. -/
def IsIntText (r : List Char) (n : Int) : Prop :=
  ∃ (sign : Numeral.Sign) (ds : List Char), r = sign.chars ++ ds ∧ (∀ c ∈ ds, c.isDigit = true) ∧
    1 ≤ ds.length ∧ ds.length ≤ 4300 ∧
    n = if sign.isMinus then -(Nat.ofDigitChars 10 ds 0 : Int) else Nat.ofDigitChars 10 ds 0

/-- The text of a double: a sign, if there is one, and digits with one point among them or around
them, or more than 4300 digits without a point. -/
def IsFloatText (r : List Char) : Prop :=
  ∃ (sign : Numeral.Sign) (whole : List Char),
    (∃ fraction, r = sign.chars ++ (whole ++ '.' :: fraction) ∧
      (∀ c ∈ whole ++ fraction, c.isDigit = true) ∧ whole ++ fraction ≠ []) ∨
    (r = sign.chars ++ whole ∧ (∀ c ∈ whole, c.isDigit = true) ∧ 4300 < whole.length)

variable {r : List Char} {n : Int}

theorem isIntText_iff : IsIntText r n ↔ ∃ a : Numeral, a.text = r ∧ a.IsShort ∧ a.integer = n := by
  constructor
  · rintro ⟨sign, ds, rfl, hdigit, hsome, hfew, rfl⟩
    have hne : ds ≠ [] := List.length_pos_iff.1 hsome
    refine ⟨⟨sign, ds, none, by simpa using hdigit, by simpa using hne⟩, ?_, ⟨rfl, hfew⟩, ?_⟩
    · simp [Numeral.text, Numeral.body]
    · simp [Numeral.integer, Numeral.natural, Numeral.digits]
  · rintro ⟨⟨sign, ds, fraction, hdigit, hne⟩, rfl, ⟨rfl, hfew⟩, rfl⟩
    refine ⟨sign, ds, ?_, by simpa using hdigit, ?_, hfew, ?_⟩
    · simp [Numeral.text, Numeral.body]
    · exact List.length_pos_iff.2 (by simpa using hne)
    · simp [Numeral.integer, Numeral.natural, Numeral.digits]

theorem isFloatText_iff : IsFloatText r ↔ ∃ a : Numeral, a.text = r ∧ ¬ a.IsShort := by
  constructor
  · rintro ⟨sign, whole, ⟨fraction, rfl, hdigit, hne⟩ | ⟨rfl, hdigit, hmany⟩⟩
    · exact ⟨⟨sign, whole, some fraction, hdigit, hne⟩, rfl, nofun⟩
    · have hne : whole ≠ [] := List.length_pos_iff.1 (Nat.zero_lt_of_lt hmany)
      refine ⟨⟨sign, whole, none, by simpa using hdigit, by simpa using hne⟩, ?_, ?_⟩
      · simp [Numeral.text, Numeral.body]
      · exact fun hshort => Nat.not_le_of_lt hmany hshort.2
  · rintro ⟨⟨sign, whole, _ | fraction, hdigit, hne⟩, rfl, hlong⟩
    · refine ⟨sign, whole, .inr ⟨?_, by simpa using hdigit, ?_⟩⟩
      · simp [Numeral.text, Numeral.body]
      · exact Nat.lt_of_not_le fun hfew => hlong ⟨rfl, hfew⟩
    · exact ⟨sign, whole, .inl ⟨fraction, rfl, hdigit, hne⟩⟩

theorem read_eq_int_iff (h : ∀ c ∈ r, Scan.isValueChar c = true) :
    read r = .int n ↔ IsIntText r n := by
  rw [isIntText_iff]
  constructor
  · intro hread
    rcases read_by_numeral h with ⟨a, ha, hshort, hint⟩ | ⟨a, -, -, hfloat⟩ | ⟨-, htext⟩
    · cases hint.symm.trans hread
      exact ⟨a, ha, hshort, rfl⟩
    · cases hfloat.symm.trans hread
    · cases htext.symm.trans hread
  · rintro ⟨a, rfl, hshort, rfl⟩
    rw [read_numeral, if_pos hshort]

theorem exists_read_eq_float_iff (h : ∀ c ∈ r, Scan.isValueChar c = true) :
    (∃ x, read r = .float x) ↔ IsFloatText r := by
  rw [isFloatText_iff]
  constructor
  · rintro ⟨x, hread⟩
    rcases read_by_numeral h with ⟨a, -, -, hint⟩ | ⟨a, ha, hlong, -⟩ | ⟨-, htext⟩
    · cases hint.symm.trans hread
    · exact ⟨a, ha, hlong⟩
    · cases htext.symm.trans hread
  · rintro ⟨a, rfl, hlong⟩
    exact ⟨_, by rw [read_numeral, if_neg hlong]⟩

theorem read_ne_nan (h : ∀ c ∈ r, Scan.isValueChar c = true) : read r ≠ .float .nan := by
  intro hread
  rcases read_by_numeral h with ⟨a, -, -, hint⟩ | ⟨a, -, -, hfloat⟩ | ⟨-, htext⟩
  · cases hint.symm.trans hread
  · exact Binary64.ofRatio_ne_nan _ _ _ (float.inj (hfloat.symm.trans hread))
  · cases htext.symm.trans hread

theorem read_eq_text_iff {s : String} (h : ∀ c ∈ r, Scan.isValueChar c = true) :
    read r = .text s ↔ s = String.ofList r ∧ (¬ ∃ n, IsIntText r n) ∧ ¬ IsFloatText r := by
  constructor
  · intro hread
    refine ⟨?_, ?_, ?_⟩
    · rcases read_by_numeral h with ⟨a, -, -, hint⟩ | ⟨a, -, -, hfloat⟩ | ⟨-, htext⟩
      · cases hint.symm.trans hread
      · cases hfloat.symm.trans hread
      · exact text.inj (hread.symm.trans htext)
    · rintro ⟨n, hn⟩
      cases hread.symm.trans ((read_eq_int_iff h).2 hn)
    · intro hfloat
      obtain ⟨x, hx⟩ := (exists_read_eq_float_iff h).2 hfloat
      cases hread.symm.trans hx
  · rintro ⟨rfl, hint, hfloat⟩
    rcases read_by_numeral h with ⟨a, ha, hshort, -⟩ | ⟨a, ha, hlong, -⟩ | ⟨-, htext⟩
    · exact absurd ⟨_, isIntText_iff.2 ⟨a, ha, hshort, rfl⟩⟩ hint
    · exact absurd (isFloatText_iff.2 ⟨a, ha, hlong⟩) hfloat
    · exact htext

/-- What is read behind a letter, where digits, signs and points can stand. It is an integer exactly
if it is a sign, if there is one, and 1 to 4300 digits. It is a double, and not the undefined one,
exactly if it is a sign, if there is one, and digits with one point, or more than 4300 digits
without one. In any other case it is the text itself. -/
theorem read_kinds (r : List Char) (h : ∀ c ∈ r, Scan.isValueChar c = true) :
    (∀ n, read r = .int n ↔ IsIntText r n) ∧
    ((∃ x, read r = .float x) ↔ IsFloatText r) ∧
    (∀ x, read r = .float x → x ≠ .nan) ∧
    ∀ s, read r = .text s ↔ s = String.ofList r ∧ (¬ ∃ n, IsIntText r n) ∧ ¬ IsFloatText r := by
  refine ⟨fun n => read_eq_int_iff h, exists_read_eq_float_iff h, ?_, fun s => read_eq_text_iff h⟩
  rintro x hread rfl
  exact read_ne_nan h hread

/-- A number with a sign and zeros to spare, a number with nothing before its point, and a text with
two signs. -/
theorem read_kinds_signed :
    read ['-', '0', '0', '7'] = .int (-7) ∧ (∃ x, read ['+', '.', '5'] = .float x ∧ x ≠ .nan) ∧
      (¬ ∃ n, IsIntText ['+', '-', '5'] n) ∧ ¬ IsFloatText ['+', '-', '5'] := by
  obtain ⟨hint, -⟩ := read_kinds ['-', '0', '0', '7'] (by simp [Scan.isValueChar])
  obtain ⟨-, hfloat, hnan, -⟩ := read_kinds ['+', '.', '5'] (by simp [Scan.isValueChar])
  obtain ⟨-, -, -, htext⟩ := read_kinds ['+', '-', '5'] (by simp [Scan.isValueChar])
  refine ⟨?_, ?_, ?_⟩
  · exact (hint _).2 ⟨.minus, ['0', '0', '7'], rfl, by simp, by decide, by decide, rfl⟩
  · obtain ⟨x, hx⟩ := hfloat.2 ⟨.plus, [], .inl ⟨['5'], rfl, by simp, by decide⟩⟩
    exact ⟨x, hx, hnan x hx⟩
  · exact ((htext "+-5").1 (by decide +kernel)).2

end Value

end Gcode
