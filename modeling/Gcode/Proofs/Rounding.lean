import Gcode.Number.Binary64
import Mathlib.Algebra.Group.Nat.Defs
import Mathlib.Algebra.Order.Ring.Nat
import Mathlib.Data.Nat.Log
import Mathlib.Tactic.Ring

/-!
Rounding to doubles, on natural numbers. The double nearest to a quotient is the double of a rounded
magnitude (`Binary64.ofRatio_eq`). That magnitude depends on the quotient alone (`rounded_congr`),
grows with it (`rounded_mono`), and is the exact one if this fits into 53 bits (`rounded_exact`).
Hence each double is the one nearest to itself (`ofRatio_of_canonical`).
-/

namespace Gcode.Binary64

variable {num den num' den' k m : Nat} {negative : Bool}

/-! ### Rounding a quotient -/

theorem div_le_roundDiv (num den : Nat) : num / den ≤ roundDiv num den := by
  rw [roundDiv]
  split
  · exact Nat.le_refl _
  · split
    · exact Nat.le_succ _
    · exact Nat.le_add_right _ _

theorem roundDiv_le (num den : Nat) : roundDiv num den ≤ num / den + 1 := by
  rw [roundDiv]
  split
  · exact Nat.le_succ _
  · split
    · exact Nat.le_refl _
    · have hbit := Nat.mod_lt (num / den) Nat.two_pos
      omega

theorem roundDiv_scale (hk : 0 < k) (num den : Nat) :
    roundDiv (num * k) (den * k) = roundDiv num den := by
  have hlow : 2 * (num % den * k) < den * k ↔ 2 * (num % den) < den := by
    rw [← Nat.mul_assoc, Nat.mul_lt_mul_right hk]
  have hhigh : den * k < 2 * (num % den * k) ↔ den < 2 * (num % den) := by
    rw [← Nat.mul_assoc, Nat.mul_lt_mul_right hk]
  simp only [roundDiv, Nat.mul_div_mul_right _ _ hk, Nat.mul_mod_mul_right, hlow, hhigh]

/-- Rounding depends on the quotient and not on how it is written. -/
theorem roundDiv_congr (hden : 0 < den) (hden' : 0 < den') (h : num * den' = num' * den) :
    roundDiv num den = roundDiv num' den' := by
  rw [← roundDiv_scale hden' num den, ← roundDiv_scale hden num' den', h, Nat.mul_comm den' den]

@[simp]
theorem roundDiv_mul_self (hden : 0 < den) (m : Nat) : roundDiv (m * den) den = m := by
  rw [roundDiv, Nat.mul_mod_left, Nat.mul_div_cancel _ hden, Nat.mul_zero, if_pos hden]

/-- Quotients over one denominator are rounded in their order. -/
theorem roundDiv_le_roundDiv (h : num ≤ num') : roundDiv num den ≤ roundDiv num' den := by
  have hdiv : num / den ≤ num' / den := Nat.div_le_div_right h
  rcases Nat.lt_or_eq_of_le hdiv with hlt | heq
  · exact (roundDiv_le num den).trans (Nat.le_trans hlt (div_le_roundDiv num' den))
  · have hmod : num % den ≤ num' % den := by
      have hsum := Nat.div_add_mod num den
      have hsum' := Nat.div_add_mod num' den
      rw [← heq] at hsum'
      omega
    have hbit := Nat.mod_lt (num / den) Nat.two_pos
    simp only [roundDiv, ← heq]
    split_ifs <;> omega

/-! ### Magnitudes -/

theorem one_eq : one = 2 ^ 1074 := by
  unfold one
  generalize 1074 = k
  exact Nat.pow_eq

theorem one_pos : 0 < one := by
  unfold one
  generalize 1074 = k
  exact Nat.pow_pos Nat.two_pos

/-- What fits into 53 bits has the smallest unit. -/
theorem unitOf_eq_zero {mag : Nat} (h : mag < 2 ^ 53) : unitOf mag = 0 := by
  rw [unitOf, Nat.sub_eq_zero_iff_le]
  by_cases hmag : mag = 0
  · subst hmag
    exact Nat.zero_le _
  · exact Nat.le_of_lt_succ ((Nat.log2_lt hmag).2 h)

/-- A significand that needs all 53 bits determines the unit. -/
theorem unitOf_mul_pow (hlow : 2 ^ 52 ≤ m) (hhigh : m < 2 ^ 53) (unit : Nat) :
    unitOf (m * 2 ^ unit) = unit := by
  have hlog : (m * 2 ^ unit).log2 = 52 + unit := by
    have hpos : 0 < m := Nat.lt_of_lt_of_le (Nat.pow_pos Nat.two_pos) hlow
    refine (Nat.log2_eq_iff (Nat.mul_pos hpos (Nat.pow_pos Nat.two_pos)).ne').2 ⟨?_, ?_⟩
    · rw [Nat.pow_add]
      exact Nat.mul_le_mul_right _ hlow
    · rw [Nat.add_right_comm, Nat.pow_add]
      exact Nat.mul_lt_mul_of_pos_right hhigh (Nat.pow_pos Nat.two_pos)
  rw [unitOf, hlog, Nat.add_sub_cancel_left]

theorem unitOf_mul_pow_le {bits : Nat} (hm : m < 2 ^ bits) (unit : Nat) :
    unitOf (m * 2 ^ unit) ≤ bits - 53 + unit := by
  by_cases hzero : m = 0
  · rw [hzero, Nat.zero_mul]
    exact Nat.zero_le _
  · have hlog : (m * 2 ^ unit).log2 < bits + unit := by
      have hne : m * 2 ^ unit ≠ 0 := Nat.mul_ne_zero hzero (Nat.pow_pos Nat.two_pos).ne'
      refine (Nat.log2_lt hne).2 ?_
      rw [Nat.pow_add]
      exact Nat.mul_lt_mul_of_pos_right hm (Nat.pow_pos Nat.two_pos)
    rw [unitOf]
    omega

theorem div_unitOf_lt (mag : Nat) : mag / 2 ^ unitOf mag < 2 ^ 53 := by
  rw [Nat.div_lt_iff_lt_mul (Nat.pow_pos Nat.two_pos), ← Nat.pow_add]
  exact Nat.lt_log2_self.trans_le (Nat.pow_le_pow_right Nat.two_pos (by rw [unitOf]; omega))

theorem le_div_unitOf {mag : Nat} (h : unitOf mag ≠ 0) : 2 ^ 52 ≤ mag / 2 ^ unitOf mag := by
  have hlog : 52 + unitOf mag = mag.log2 := by
    rw [unitOf] at h ⊢
    omega
  have hmag : mag ≠ 0 := by
    rintro rfl
    exact h (unitOf_eq_zero (Nat.pow_pos Nat.two_pos))
  rw [Nat.le_div_iff_mul_le (Nat.pow_pos Nat.two_pos), ← Nat.pow_add, hlog]
  exact Nat.log2_self_le hmag

theorem unitOf_le_unitOf {mag mag' : Nat} (h : mag ≤ mag') : unitOf mag ≤ unitOf mag' := by
  by_cases hmag : mag = 0
  · subst hmag
    exact Nat.zero_le _
  · have hmag' : mag' ≠ 0 := by omega
    exact Nat.sub_le_sub_right ((Nat.le_log2 hmag').2 ((Nat.log2_self_le hmag).trans h)) 52

/-- A magnitude that has at most 53 bits in its unit. -/
def IsRound (mag : Nat) : Prop := 2 ^ unitOf mag ∣ mag

theorem isRound_mul_pow (hm : m < 2 ^ 53) (unit : Nat) : IsRound (m * 2 ^ unit) := by
  have hunit : unitOf (m * 2 ^ unit) ≤ unit := by
    have hle := unitOf_mul_pow_le hm unit
    rwa [Nat.sub_self, Nat.zero_add] at hle
  exact (Nat.pow_dvd_pow 2 hunit).trans (Nat.dvd_mul_left _ m)

/-- So has the first significand of 54 bits, which is a power of two. -/
theorem isRound_of_le (hm : m ≤ 2 ^ 53) (unit : Nat) : IsRound (m * 2 ^ unit) := by
  rcases Nat.lt_or_eq_of_le hm with hlt | rfl
  · exact isRound_mul_pow hlt _
  · have hpow : 2 ^ 53 * 2 ^ unit = 1 * 2 ^ (53 + unit) := by rw [Nat.pow_add, Nat.one_mul]
    rw [hpow]
    exact isRound_mul_pow (Nat.one_lt_two_pow (by decide)) _

/-- The double of a magnitude that fits into 53 bits. -/
def ofMagnitude (negative : Bool) (mag : Nat) : Binary64 :=
  if maxUnit < unitOf mag then .infinite negative
  else .finite negative (mag / 2 ^ unitOf mag) (unitOf mag)

/-- The magnitude that a quotient is rounded to. -/
def rounded (num den : Nat) : Nat :=
  let unit := unitOf (num * one / den)
  roundDiv (num * one) (den * 2 ^ unit) * 2 ^ unit

/-- The significand of a quotient fits into 53 bits or is the first one that does not, and it needs
all of them unless the unit is the smallest one. -/
theorem significand_bounds (num den : Nat) :
    let unit := unitOf (num * one / den)
    let m := roundDiv (num * one) (den * 2 ^ unit)
    m ≤ 2 ^ 53 ∧ (unit = 0 ∨ 2 ^ 52 ≤ m) := by
  intro unit m
  have hdiv : num * one / (den * 2 ^ unit) = num * one / den / 2 ^ unit :=
    (Nat.div_div_eq_div_mul _ _ _).symm
  refine ⟨(roundDiv_le _ _).trans ?_, ?_⟩
  · rw [hdiv]
    exact div_unitOf_lt _
  · by_cases hunit : unit = 0
    · exact .inl hunit
    · refine .inr (Nat.le_trans ?_ (div_le_roundDiv _ _))
      rw [hdiv]
      exact le_div_unitOf hunit

/-- A significand of at most 53 bits, or the first one of 54, is packed into the double of the
magnitude. -/
theorem pack_eq (negative : Bool) {unit : Nat} (hle : m ≤ 2 ^ 53) (hunit : unit = 0 ∨ 2 ^ 52 ≤ m) :
    pack negative m unit = ofMagnitude negative (m * 2 ^ unit) := by
  rcases Nat.lt_or_eq_of_le hle with hlt | rfl
  · have hunitOf : unitOf (m * 2 ^ unit) = unit := by
      rcases hunit with rfl | hlow
      · rw [Nat.pow_zero, Nat.mul_one]
        exact unitOf_eq_zero hlt
      · exact unitOf_mul_pow hlow hlt unit
    have hne : m ≠ Nat.pow 2 53 := by
      rw [Nat.pow_eq]
      exact hlt.ne
    rw [pack, if_neg hne, ofMagnitude, hunitOf, Nat.mul_div_cancel _ (Nat.pow_pos Nat.two_pos)]
  · have hcarry : 2 ^ 53 * 2 ^ unit = 2 ^ 52 * 2 ^ (unit + 1) := by
      rw [← Nat.pow_add, ← Nat.pow_add]
      congr 1
      omega
    have hunitOf : unitOf (2 ^ 52 * 2 ^ (unit + 1)) = unit + 1 :=
      unitOf_mul_pow (Nat.le_refl _) (Nat.pow_lt_pow_right Nat.one_lt_two (Nat.lt_succ_self _)) _
    have heq : 2 ^ 53 = Nat.pow 2 53 := by rw [Nat.pow_eq]
    rw [ofMagnitude, hcarry, hunitOf, Nat.mul_div_cancel _ (Nat.pow_pos Nat.two_pos), heq, pack,
      if_pos rfl, Nat.pow_eq]

/-- The double nearest to a quotient is that of the rounded magnitude. -/
theorem ofRatio_eq (negative : Bool) (num den : Nat) :
    ofRatio negative num den = ofMagnitude negative (rounded num den) := by
  obtain ⟨hle, hunit⟩ := significand_bounds num den
  simp only [ofRatio, rounded, Nat.pow_eq]
  exact pack_eq negative hle hunit

theorem isRound_rounded (num den : Nat) : IsRound (rounded num den) := by
  obtain ⟨hle, -⟩ := significand_bounds num den
  exact isRound_of_le hle _

/-- What a quotient is rounded to does not depend on how it is written. -/
theorem rounded_congr (hden : 0 < den) (hden' : 0 < den') (h : num * den' = num' * den) :
    rounded num den = rounded num' den' := by
  have hcross (c : Nat) : num * c * den' = num' * c * den := by
    rw [Nat.mul_right_comm, h, Nat.mul_right_comm]
  have hdiv : num * one / den = num' * one / den' := by
    rw [← Nat.mul_div_mul_right (num * one) den hden', hcross, Nat.mul_comm den den',
      Nat.mul_div_mul_right _ _ hden]
  rw [rounded, rounded, hdiv]
  generalize unitOf (num' * one / den') = unit
  rw [roundDiv_congr (Nat.mul_pos hden (Nat.pow_pos Nat.two_pos))
    (Nat.mul_pos hden' (Nat.pow_pos Nat.two_pos))]
  rw [← Nat.mul_assoc, ← Nat.mul_assoc, hcross]

theorem ofRatio_congr (negative : Bool) (hden : 0 < den) (hden' : 0 < den')
    (h : num * den' = num' * den) : ofRatio negative num den = ofRatio negative num' den' := by
  rw [ofRatio_eq, ofRatio_eq, rounded_congr hden hden' h]

/-- Quotients are rounded in their order. -/
theorem rounded_mono (hden : 0 < den) (hden' : 0 < den') (h : num * den' ≤ num' * den) :
    rounded num den ≤ rounded num' den' := by
  have hscale : rounded num den = rounded (num * den') (den * den') :=
    rounded_congr hden (Nat.mul_pos hden hden') (by ring)
  have hscale' : rounded num' den' = rounded (num' * den) (den * den') :=
    rounded_congr hden' (Nat.mul_pos hden hden') (by ring)
  rw [hscale, hscale']
  generalize hn : num * den' = n at *
  generalize hn' : num' * den = n' at *
  generalize hd : den * den' = d at *
  have hmag : n * one / d ≤ n' * one / d := Nat.div_le_div_right (Nat.mul_le_mul_right _ h)
  have hunit := unitOf_le_unitOf hmag
  obtain ⟨hle, -⟩ := significand_bounds n d
  obtain ⟨-, hlow⟩ := significand_bounds n' d
  simp only [rounded]
  rcases Nat.lt_or_eq_of_le hunit with hlt | heq
  · -- a larger unit: the power of two at the end of the smaller unit stands between the two
    have hlow' := hlow.resolve_left (Nat.ne_zero_of_lt hlt)
    calc _ ≤ 2 ^ 53 * 2 ^ unitOf (n * one / d) := Nat.mul_le_mul_right _ hle
      _ = 2 ^ 52 * 2 ^ (unitOf (n * one / d) + 1) := by
        rw [← Nat.pow_add, ← Nat.pow_add]
        congr 1
        omega
      _ ≤ 2 ^ 52 * 2 ^ unitOf (n' * one / d) :=
        Nat.mul_le_mul_left _ (Nat.pow_le_pow_right Nat.two_pos hlt)
      _ ≤ _ := Nat.mul_le_mul_right _ hlow'
  · rw [heq]
    exact Nat.mul_le_mul_right _ (roundDiv_le_roundDiv (Nat.mul_le_mul_right _ h))

/-- A quotient that is a magnitude of at most 53 bits is rounded to itself. -/
theorem rounded_exact {mag : Nat} (hden : 0 < den) (hmag : IsRound mag)
    (h : num * one = mag * den) : rounded num den = mag := by
  obtain ⟨m, hm⟩ := hmag
  have hdiv : num * one / den = mag := by rw [h, Nat.mul_div_cancel _ hden]
  rw [rounded, hdiv, h]
  have hsplit : mag * den = m * (den * 2 ^ unitOf mag) := by
    conv_lhs => rw [hm]
    ring
  rw [hsplit, roundDiv_mul_self (Nat.mul_pos hden (Nat.pow_pos Nat.two_pos)), Nat.mul_comm, ← hm]

/-- A double that can occur is that of its magnitude. -/
theorem ofMagnitude_of_canonical (hx : Canonical (.finite negative m k)) :
    ofMagnitude negative (m * 2 ^ k) = .finite negative m k := by
  obtain ⟨hhigh, hlow, hunit⟩ := hx
  simp only [Nat.pow_eq] at hhigh hlow
  have hunitOf : unitOf (m * 2 ^ k) = k := by
    rcases hlow with hlow | rfl
    · exact unitOf_mul_pow hlow hhigh k
    · rw [Nat.pow_zero, Nat.mul_one]
      exact unitOf_eq_zero hhigh
  rw [ofMagnitude, hunitOf, Nat.mul_div_cancel _ (Nat.pow_pos Nat.two_pos),
    if_neg (Nat.not_lt_of_le hunit)]

theorem isRound_of_canonical (hx : Canonical (.finite negative m k)) : IsRound (m * 2 ^ k) := by
  have hhigh := hx.1
  rw [Nat.pow_eq] at hhigh
  exact isRound_mul_pow hhigh k

/-- So it is the one nearest to itself. -/
theorem ofRatio_of_canonical (hx : Canonical (.finite negative m k)) :
    ofRatio negative (m * 2 ^ k) one = .finite negative m k := by
  rw [ofRatio_eq, rounded_exact one_pos (isRound_of_canonical hx) rfl, ofMagnitude_of_canonical hx]

/-- Only doubles that can occur come out of rounding. -/
theorem canonical_ofRatio (negative : Bool) (num den : Nat) :
    Canonical (ofRatio negative num den) := by
  rw [ofRatio_eq, ofMagnitude]
  split
  · trivial
  · rename_i hunit
    refine ⟨?_, ?_, Nat.le_of_not_lt hunit⟩
    · rw [Nat.pow_eq]
      exact div_unitOf_lt _
    · rw [Nat.pow_eq, or_comm]
      exact Classical.or_iff_not_imp_left.2 le_div_unitOf

/-! ### Whole numbers -/

/-- Whole numbers up to `2 ^ 53` are doubles. -/
theorem isRound_mul_one {a : Nat} (ha : a ≤ 2 ^ 53) : IsRound (a * one) := by
  rw [one_eq]
  exact isRound_of_le ha _

/-- A magnitude that fits into 53 bits and is not too large is that of its double. -/
theorem ofMagnitude_finite {mag : Nat} (hmag : IsRound mag) (hunit : unitOf mag ≤ maxUnit)
    (negative : Bool) : ∃ m p, ofMagnitude negative mag = .finite negative m p ∧ m * 2 ^ p = mag :=
  ⟨mag / 2 ^ unitOf mag, unitOf mag, if_neg (Nat.not_lt_of_le hunit), Nat.div_mul_cancel hmag⟩

/-- A quotient that is a whole number of at most 53 bits becomes a double equal to it. -/
theorem toInt?_ofRatio {a : Nat} (hden : 0 < den) (ha : a ≤ 2 ^ 53) (negative : Bool) :
    toInt? (ofRatio negative (a * den) den) = some (if negative then -(a : Int) else a) := by
  have hround : rounded (a * den) den = a * one :=
    rounded_exact hden (isRound_mul_one ha) (Nat.mul_right_comm a den one)
  have hunit : unitOf (a * one) ≤ maxUnit := by
    have hlt : a < 2 ^ 54 := ha.trans_lt (Nat.pow_lt_pow_right Nat.one_lt_two (Nat.lt_succ_self _))
    rw [one_eq]
    exact (unitOf_mul_pow_le hlt 1074).trans (by decide)
  obtain ⟨m, p, hfinite, hm⟩ := ofMagnitude_finite (isRound_mul_one ha) hunit negative
  rw [ofRatio_eq, hround, hfinite, toInt?, Nat.pow_eq, hm]
  simp only [Nat.mul_mod_left, Nat.mul_div_cancel _ one_pos, if_true]

end Gcode.Binary64
