import Gcode.Number.Shortest
import Gcode.Proofs.WordValues

/-!
The text of a double read back. The shortest decimal of a double is rounded to the double
(`rounded_shortest`), and if the double is from `10 ^ (-4)` up to `10 ^ 16` so is the decimal, so
that its digits are laid out without an exponent. Main statement: such a text is a numeral that is
read as the double it was written for (`Value.read_render_float`).
-/

namespace Gcode

/-! ### Decimals as quotients -/

namespace Binary64

variable {num den num' den' : Nat}

/-- Rounding keeps the order of rational numbers. -/
theorem rounded_le_of_div_le (hden : 0 < den) (hden' : 0 < den')
    (h : (num : ℚ) / den ≤ num' / den') : rounded num den ≤ rounded num' den' := by
  rw [div_le_div_iff₀ (by exact_mod_cast hden) (by exact_mod_cast hden')] at h
  exact rounded_mono hden hden' (by exact_mod_cast h)

end Binary64

namespace Decimal

/-- The number that a decimal stands for. -/
def value (d : Decimal) : ℚ := d.digits * 10 ^ d.exponent

/-- The magnitude that a decimal is rounded to. -/
def rounded (d : Decimal) : Nat := Binary64.rounded d.ratio.1 d.ratio.2

variable {d : Decimal} {num den : Nat}

theorem ratio_pos (d : Decimal) : 0 < d.ratio.2 := by
  rw [ratio]
  split
  · exact Nat.one_pos
  · rw [Nat.pow_eq]
    exact Nat.pow_pos (by decide)

theorem value_eq_div (d : Decimal) : d.value = d.ratio.1 / d.ratio.2 := by
  rw [value, ratio]
  split_ifs with hexponent
  · have hcast : ((d.exponent.toNat : Nat) : Int) = d.exponent := Int.toNat_of_nonneg hexponent
    rw [Nat.pow_eq, Nat.cast_one, div_one, Nat.cast_mul, Nat.cast_pow, Nat.cast_ofNat,
      ← zpow_natCast, hcast]
  · have hcast : (((-d.exponent).toNat : Nat) : Int) = -d.exponent :=
      Int.toNat_of_nonneg (by omega)
    rw [Nat.pow_eq, Nat.cast_pow, Nat.cast_ofNat, ← zpow_natCast, hcast, zpow_neg, div_inv_eq_mul]

theorem round_eq (negative : Bool) (d : Decimal) :
    d.round negative = Binary64.ofMagnitude negative d.rounded := Binary64.ofRatio_eq _ _ _

theorem rounded_le (hden : 0 < den) (h : d.value ≤ num / den) :
    d.rounded ≤ Binary64.rounded num den :=
  Binary64.rounded_le_of_div_le d.ratio_pos hden (d.value_eq_div ▸ h)

theorem le_rounded (hden : 0 < den) (h : (num : ℚ) / den ≤ d.value) :
    Binary64.rounded num den ≤ d.rounded :=
  Binary64.rounded_le_of_div_le hden d.ratio_pos (d.value_eq_div ▸ h)

theorem rounded_eq (hden : 0 < den) (h : d.value = num / den) :
    d.rounded = Binary64.rounded num den :=
  le_antisymm (rounded_le hden h.le) (le_rounded hden h.ge)

end Decimal

/-! ### The shortest decimal -/

namespace Binary64

open Decimal

variable {negative : Bool} {m p : Nat}

theorem value_dropZeros (fuel : Nat) (d : Decimal) : (dropZeros fuel d).value = d.value := by
  induction fuel generalizing d with
  | zero => rfl
  | succ fuel ih =>
    rw [dropZeros]
    split_ifs with h
    · have hdigits : (d.digits : ℚ) = (d.digits / 10 : Nat) * 10 := by
        exact_mod_cast (Nat.div_mul_cancel (Nat.dvd_of_mod_eq_zero h.2)).symm
      rw [ih, value, value, hdigits, zpow_add_one₀ (by norm_num), mul_comm (10 ^ d.exponent),
        mul_assoc]
    · rfl

theorem value_exactDecimal (mag : Nat) : (exactDecimal mag).value = mag / one := by
  have hpower (k : Nat) : (Decimal.mk (mag * 5 ^ k) (-(k : Int))).value = mag / (2 ^ k : Nat) := by
    have hten : (10 : ℚ) ^ k = 5 ^ k * 2 ^ k := by
      rw [← mul_pow]
      norm_num
    rw [value, zpow_neg, zpow_natCast, hten]
    push_cast
    field_simp
  have hexponent : (-1074 : Int) = -((1074 : Nat) : Int) := rfl
  unfold exactDecimal one
  rw [hexponent]
  generalize 1074 = k
  exact hpower k

/-- The shortest decimal is rounded to the magnitude of the double. -/
theorem round_shortest (mag : Nat) : (shortest mag).round false = ofRatio false mag one := by
  have hdrop (fuel : Nat) (d : Decimal) : (dropZeros fuel d).round false = d.round false := by
    rw [round_eq, round_eq, rounded_eq d.ratio_pos ((value_dropZeros fuel d).trans d.value_eq_div)]
    rfl
  rw [shortest, hdrop]
  cases hfound : (List.range 17).findSome? fun n : Nat =>
      neighbour? (ofRatio false mag one) mag (leadingExponent mag one - n) with
  | none =>
    rw [Option.getD_none, round_eq, ofRatio_eq, rounded_eq one_pos (value_exactDecimal mag)]
  | some d =>
    obtain ⟨n, -, hd⟩ := List.exists_of_findSome?_eq_some hfound
    have hfind := List.find?_some hd
    exact beq_iff_eq.1 hfind

theorem rounded_shortest (hx : Canonical (.finite negative m p)) :
    (shortest (m * 2 ^ p)).rounded = m * 2 ^ p := by
  have hround := round_shortest (m * 2 ^ p)
  have hself : ofRatio false (m * 2 ^ p) one = .finite false m p := ofRatio_of_canonical hx
  rw [hself, round_eq] at hround
  generalize shortest (m * 2 ^ p) = d at hround ⊢
  rw [ofMagnitude] at hround
  split_ifs at hround
  obtain ⟨-, hm, hp⟩ := Binary64.finite.inj hround
  have hd : IsRound d.rounded := isRound_rounded _ _
  rw [← Nat.div_mul_cancel hd, hm, hp]

/-- The size of a finite double. -/
def size? : Binary64 → Option ℚ
  | .finite _ m p => some ((m * 2 ^ p : Nat) / (one : Nat))
  | _ => none

/-- Zero, or a double that is written without an exponent. -/
def IsPlain (x : Binary64) : Prop :=
  ∃ q, x.size? = some q ∧ (q = 0 ∨ 1 / 10 ^ 4 ≤ q ∧ q < 10 ^ 16)

theorem rounded_ten_pow_sixteen : rounded (10 ^ 16) 1 = 10 ^ 16 * one := by
  have hround : IsRound (10 ^ 16 * one) := by
    have hten : 10 ^ 16 * one = 5 ^ 16 * 2 ^ (16 + 1074) := by
      rw [one_eq]
      generalize 1074 = k
      rw [Nat.pow_add, ← Nat.mul_assoc, ← Nat.mul_pow]
    rw [hten]
    exact isRound_mul_pow (by norm_num) _
  exact rounded_exact Nat.one_pos hround (Nat.mul_one _).symm

/-- The double nearest to a ten-thousandth is written as that. -/
theorem shortest_ten_thousandth : shortest (rounded 1 (10 ^ 4)) = ⟨1, -4⟩ := by
  decide +kernel

/-- The shortest decimal does not leave the range of what is written without an exponent. -/
theorem value_shortest_bounds (hx : Canonical (.finite negative m p))
    (hlow : (1 : ℚ) / 10 ^ 4 ≤ (m * 2 ^ p : Nat) / (one : Nat))
    (hhigh : ((m * 2 ^ p : Nat) : ℚ) / (one : Nat) < 10 ^ 16) :
    1 / 10 ^ 4 ≤ (shortest (m * 2 ^ p)).value ∧ (shortest (m * 2 ^ p)).value < 10 ^ 16 := by
  have hrounded := rounded_shortest hx
  generalize hmag : m * 2 ^ p = mag at *
  have hself : rounded mag one = mag := by
    refine rounded_exact one_pos ?_ rfl
    rw [← hrounded]
    exact isRound_rounded _ _
  constructor
  · by_contra hlt
    -- then the magnitude is that of the double nearest to the bound
    have hle : mag ≤ rounded 1 (10 ^ 4) := by
      conv_lhs => rw [← hrounded]
      refine rounded_le (by norm_num) ?_
      push_cast
      exact (not_le.1 hlt).le
    have hge : rounded 1 (10 ^ 4) ≤ mag := by
      conv_rhs => rw [← hself]
      refine rounded_le_of_div_le (by norm_num) one_pos ?_
      push_cast
      exact hlow
    rw [le_antisymm hle hge, shortest_ten_thousandth] at hlt
    exact hlt (by norm_num [value])
  · by_contra hge
    have hle : 10 ^ 16 * one ≤ mag := by
      rw [← rounded_ten_pow_sixteen]
      conv_rhs => rw [← hrounded]
      refine le_rounded Nat.one_pos ?_
      push_cast
      rw [div_one]
      exact not_lt.1 hge
    refine absurd hhigh (not_lt.2 ?_)
    rw [le_div_iff₀ (by exact_mod_cast one_pos)]
    exact_mod_cast hle

end Binary64

/-! ### The layout -/

namespace Decimal

variable {d : Decimal}

/-- A decimal is laid out without an exponent exactly if its value is in the range for that. -/
theorem top_bounds (hdigits : d.digits ≠ 0) (hlow : 1 / 10 ^ 4 ≤ d.value)
    (hhigh : d.value < 10 ^ 16) :
    Binary64.positionalFrom ≤ d.exponent + (Nat.toDigits 10 d.digits).length - 1 ∧
      d.exponent + (Nat.toDigits 10 d.digits).length - 1 < Binary64.positionalBelow := by
  have hpos : 0 < (Nat.toDigits 10 d.digits).length := List.length_pos_of_ne_nil Nat.toDigits_ne_nil
  obtain ⟨k, hk⟩ : ∃ k, (Nat.toDigits 10 d.digits).length = k + 1 :=
    ⟨_, (Nat.succ_pred hpos.ne').symm⟩
  have hlt : d.digits < 10 ^ (k + 1) :=
    (Nat.length_toDigits_le_iff (by decide) (Nat.succ_pos k)).1 hk.le
  have hge : 10 ^ k ≤ d.digits := by
    by_contra hsmall
    cases k with
    | zero => exact hdigits (by omega)
    | succ k =>
      have hle := (Nat.length_toDigits_le_iff (by decide) (Nat.succ_pos k)).2 (not_le.1 hsmall)
      omega
  have hten : (0 : ℚ) < 10 ^ d.exponent := by positivity
  have hupper : d.value < 10 ^ (d.exponent + (k + 1)) := by
    rw [value, add_comm, zpow_add₀ (by norm_num)]
    refine mul_lt_mul_of_pos_right ?_ hten
    exact_mod_cast hlt
  have hlower : (10 : ℚ) ^ (d.exponent + k) ≤ d.value := by
    rw [value, add_comm, zpow_add₀ (by norm_num)]
    refine mul_le_mul_of_nonneg_right ?_ hten.le
    exact_mod_cast hge
  have hfour : ((10 : ℚ) ^ (-4 : ℤ)) < 10 ^ (d.exponent + (k + 1)) := by
    refine lt_of_le_of_lt ?_ hupper
    norm_num at hlow ⊢
    exact hlow
  have hsixteen : ((10 : ℚ) ^ (d.exponent + k)) < 10 ^ (16 : ℤ) := by
    refine lt_of_le_of_lt hlower ?_
    exact_mod_cast hhigh
  have h1 := (zpow_lt_zpow_iff_right₀ (by norm_num)).1 hfour
  have h2 := (zpow_lt_zpow_iff_right₀ (by norm_num)).1 hsixteen
  rw [hk, Binary64.positionalFrom, Binary64.positionalBelow]
  push_cast
  omega

theorem isDigit_replicate {k : Nat} : ∀ c ∈ List.replicate k '0', c.isDigit = true := fun c hc => by
  rw [List.eq_of_mem_replicate hc]
  rfl

theorem isDigit_toDigits {n : Nat} : ∀ c ∈ Nat.toDigits 10 n, c.isDigit = true := fun _ hc =>
  Nat.isDigit_of_mem_toDigits (by decide) (by decide) hc

/-- A text that is a numeral with a point for the value of a decimal. -/
def IsLaidOut (d : Decimal) (sign : Numeral.Sign) (s : List Char) : Prop :=
  ∃ a : Numeral, a.sign = sign ∧ a.body = s ∧ a.fraction ≠ none ∧
    (a.natural : ℚ) / 10 ^ a.places = d.value

variable (sign : Numeral.Sign) {k : Nat}

theorem value_of_places (h : d.exponent = -(k : Int)) : (d.digits : ℚ) / 10 ^ k = d.value := by
  rw [value, h, zpow_neg, zpow_natCast, div_eq_mul_inv]

/-- Zeros stand behind the point, and then the digits. -/
theorem isLaidOut_below_one
    (h : d.exponent = -((k + (Nat.toDigits 10 d.digits).length : Nat) : Int)) :
    d.IsLaidOut sign ('0' :: '.' :: (List.replicate k '0' ++ Nat.toDigits 10 d.digits)) := by
  refine ⟨⟨sign, ['0'], some (List.replicate k '0' ++ Nat.toDigits 10 d.digits), fun c hc => ?_,
    List.cons_ne_nil _ _⟩, rfl, rfl, Option.some_ne_none _, ?_⟩
  · simp only [Option.getD_some, List.mem_append, List.mem_singleton] at hc
    rcases hc with rfl | hc | hc
    · rfl
    · exact isDigit_replicate c hc
    · exact isDigit_toDigits c hc
  · simp only [Numeral.natural, Numeral.places, Numeral.digits, Option.getD_some]
    rw [List.length_append, List.length_replicate, Nat.ofDigitChars_append, Nat.ofDigitChars_append,
      Nat.ofDigitChars_replicate_zero, ← value_of_places h]
    exact congrArg (fun n : Nat => (n : ℚ) / 10 ^ _) Nat.ofDigitChars_ten_toDigits

/-- Zeros stand between the digits and the point. -/
theorem isLaidOut_whole (h : d.exponent = (k : Int)) :
    d.IsLaidOut sign (Nat.toDigits 10 d.digits ++ List.replicate k '0' ++ ['.', '0']) := by
  refine ⟨⟨sign, Nat.toDigits 10 d.digits ++ List.replicate k '0', some ['0'], fun c hc => ?_,
    by simp⟩, rfl, rfl, Option.some_ne_none _, ?_⟩
  · simp only [Option.getD_some, List.mem_append, List.mem_singleton] at hc
    rcases hc with (hc | hc) | rfl
    · exact isDigit_toDigits c hc
    · exact isDigit_replicate c hc
    · rfl
  · have hzero (n : Nat) : Nat.ofDigitChars 10 ['0'] n = 10 * n := rfl
    simp only [Numeral.natural, Numeral.places, Numeral.digits, Option.getD_some]
    rw [Nat.ofDigitChars_append, Nat.ofDigitChars_append, Nat.ofDigitChars_replicate_zero, hzero,
      Nat.ofDigitChars_ten_toDigits, List.length_singleton, pow_one, value, h, zpow_natCast]
    push_cast
    ring

/-- The point stands between two digits. -/
theorem isLaidOut_between {i : Nat} (hi : i + k = (Nat.toDigits 10 d.digits).length)
    (h : d.exponent = -(k : Int)) :
    d.IsLaidOut sign ((Nat.toDigits 10 d.digits).take i ++
      '.' :: (Nat.toDigits 10 d.digits).drop i) := by
  have hall : (Nat.toDigits 10 d.digits).take i ++ (Nat.toDigits 10 d.digits).drop i =
      Nat.toDigits 10 d.digits := List.take_append_drop _ _
  refine ⟨⟨sign, (Nat.toDigits 10 d.digits).take i, some ((Nat.toDigits 10 d.digits).drop i),
    ?_, ?_⟩, rfl, rfl, Option.some_ne_none _, ?_⟩
  · rw [Option.getD_some, hall]
    exact isDigit_toDigits
  · rw [Option.getD_some, hall]
    exact Nat.toDigits_ne_nil
  · simp only [Numeral.natural, Numeral.places, Numeral.digits, Option.getD_some]
    rw [hall, Nat.ofDigitChars_ten_toDigits, List.length_drop, ← hi, Nat.add_sub_cancel_left,
      value_of_places h]

/-- Digits laid out without an exponent are a numeral of the value. -/
theorem isLaidOut_layout (hdigits : d.digits ≠ 0) (hlow : 1 / 10 ^ 4 ≤ d.value)
    (hhigh : d.value < 10 ^ 16) : d.IsLaidOut sign (Binary64.layout d) := by
  obtain ⟨len, hlen⟩ : ∃ len, (Nat.toDigits 10 d.digits).length = len := ⟨_, rfl⟩
  obtain ⟨top, htop⟩ : ∃ top, d.exponent + (Nat.toDigits 10 d.digits).length - 1 = top := ⟨_, rfl⟩
  have hbounds := top_bounds hdigits hlow hhigh
  rw [htop] at hbounds
  rw [Binary64.layout, htop]
  dsimp only
  rw [if_pos hbounds]
  by_cases hneg : top < 0
  · rw [if_pos hneg]
    exact isLaidOut_below_one sign (by omega)
  · rw [if_neg hneg]
    by_cases hlong : len ≤ top.toNat + 1
    · rw [List.take_of_length_le (hlen ▸ hlong), List.drop_of_length_le (hlen ▸ hlong)]
      exact isLaidOut_whole sign (by omega)
    · have hrest : (List.drop (top.toNat + 1) (Nat.toDigits 10 d.digits)).isEmpty = false := by
        rw [List.isEmpty_eq_false_iff, Ne, List.drop_eq_nil_iff, hlen]
        exact hlong
      have hzeros : top.toNat + 1 - (Nat.toDigits 10 d.digits).length = 0 := by omega
      rw [hrest, hzeros, List.replicate_zero, List.append_nil, if_neg Bool.false_ne_true]
      exact isLaidOut_between sign (k := len - (top.toNat + 1)) (by omega) (by omega)

end Decimal

/-! ### Reading back -/

namespace Numeral

/-- The sign that is written for a double. -/
def Sign.written (negative : Bool) : Sign := if negative then .minus else .absent

theorem Sign.isMinus_written (negative : Bool) : (written negative).isMinus = negative := by
  cases negative <;> rfl

theorem Sign.chars_written (negative : Bool) :
    (written negative).chars = if negative then ['-'] else [] := by
  cases negative <;> rfl

end Numeral

namespace Binary64

open Decimal

variable {negative : Bool} {m p : Nat}

/-- A plain double is written as a numeral with a point that is rounded to its magnitude. -/
theorem exists_numeral_render (hx : Canonical (.finite negative m p))
    (hplain : IsPlain (.finite negative m p)) :
    ∃ a : Numeral, a.sign = .written negative ∧ a.text = render (.finite negative m p) ∧
      a.fraction ≠ none ∧ rounded a.natural (10 ^ a.places) = m * 2 ^ p := by
  obtain ⟨q, hq, hrange⟩ := hplain
  cases hq
  by_cases hm : m = 0
  · subst hm
    refine ⟨⟨.written negative, ['0'], some ['0'], by simp, by simp⟩, rfl, ?_,
      Option.some_ne_none _, ?_⟩
    · rw [Numeral.text, Numeral.Sign.chars_written]
      rfl
    · rw [Nat.zero_mul]
      exact rounded_exact (Nat.pow_pos (by decide)) (Nat.dvd_zero _) (by
        rw [Nat.zero_mul]
        exact Nat.zero_mul _)
  · have hone : ((one : Nat) : ℚ) ≠ 0 := by exact_mod_cast one_pos.ne'
    have hpower : 2 ^ p ≠ 0 := (Nat.pow_pos Nat.two_pos).ne'
    have hq : ((m * 2 ^ p : Nat) : ℚ) / (one : Nat) ≠ 0 :=
      div_ne_zero (by exact_mod_cast Nat.mul_ne_zero hm hpower) hone
    obtain ⟨hlow, hhigh⟩ := hrange.resolve_left hq
    obtain ⟨hlow, hhigh⟩ := value_shortest_bounds hx hlow hhigh
    have hdigits : (shortest (m * 2 ^ p)).digits ≠ 0 := by
      intro hzero
      rw [value, hzero, Nat.cast_zero, zero_mul] at hlow
      norm_num at hlow
    obtain ⟨a, hsign, hbody, hfraction, hvalue⟩ :=
      isLaidOut_layout (.written negative) hdigits hlow hhigh
    refine ⟨a, hsign, ?_, hfraction, ?_⟩
    · rw [Numeral.text, hsign, Numeral.Sign.chars_written, hbody, render, if_neg hm, Nat.pow_eq]
    · rw [← rounded_shortest hx]
      refine (rounded_eq (Nat.pow_pos (by decide)) ?_).symm
      rw [← hvalue]
      push_cast
      rfl

end Binary64

/-- The text of a plain double is a numeral that is read as this double. -/
theorem Value.read_render_float {x : Binary64} (hx : x.Canonical) (hplain : x.IsPlain) :
    ∃ a : Numeral, a.text = x.render ∧ read a.text = .float x := by
  cases x with
  | nan =>
    obtain ⟨q, hq, -⟩ := hplain
    cases hq
  | infinite negative =>
    obtain ⟨q, hq, -⟩ := hplain
    cases hq
  | finite negative m p =>
    obtain ⟨a, hsign, htext, hfraction, hrounded⟩ := Binary64.exists_numeral_render hx hplain
    have hshort : ¬ a.IsShort := fun h => hfraction h.1
    refine ⟨a, htext, ?_⟩
    rw [read_numeral, if_neg hshort, Binary64.ofRatio_eq, hrounded, hsign,
      Numeral.Sign.isMinus_written, Binary64.ofMagnitude_of_canonical hx]

end Gcode
