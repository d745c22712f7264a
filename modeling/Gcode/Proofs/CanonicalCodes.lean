import Gcode.Proofs.WordValues

/-!
Command codes are canonical. However a number is spelled, whether it is read as an integer or as a
double, a command word with it has the same code; for a whole number that is the letter with the
plain numeral of the number, so that different numbers have different codes. Main statement:
`Word.code_canonical`.
-/

namespace Gcode

/-! ### What a text denotes -/

/-- The text is a numeral for the number. -/
def Denotes (r : List Char) (q : ℚ) : Prop := ∃ a : Numeral, a.text = r ∧ a.value = q

theorem Denotes.unique {r : List Char} {q q' : ℚ} (h : Denotes r q) (h' : Denotes r q') :
    q = q' := by
  obtain ⟨a, ha, rfl⟩ := h
  obtain ⟨b, hb, rfl⟩ := h'
  exact Numeral.text_injective (ha.trans hb.symm)

/-- An integer or a double. -/
def Value.IsNumber : Value → Prop
  | .int _ | .float _ => True
  | .text _ => False

instance : DecidablePred Value.IsNumber := fun v => by
  cases v <;> unfold Value.IsNumber <;> infer_instance

/-- A text is read as a number exactly if it denotes one. -/
theorem Value.isNumber_read_iff {r : List Char} (h : ∀ c ∈ r, Scan.isValueChar c = true) :
    (read r).IsNumber ↔ ∃! q, Denotes r q := by
  refine ⟨fun hnumber => ?_, ?_⟩
  · have hnumeral : ∃ a : Numeral, a.text = r := by
      by_contra hnone
      rw [read_other h hnone] at hnumber
      exact hnumber
    obtain ⟨a, ha⟩ := hnumeral
    exact ⟨a.value, ⟨a, ha, rfl⟩, fun q hq => hq.unique ⟨a, ha, rfl⟩⟩
  · rintro ⟨q, ⟨a, rfl, -⟩, -⟩
    rw [read_numeral]
    split <;> trivial

/-! ### Whole numbers -/

namespace Numeral

variable {a b : Numeral}

theorem value_of_isShort (h : a.IsShort) : a.value = a.integer := by
  have hplaces : a.places = 0 := by
    rw [places, h.1]
    rfl
  rw [value, integer, hplaces, pow_zero, div_one]
  split_ifs with hminus
  · rw [Int.cast_neg, Int.cast_natCast]
  · rw [Int.cast_natCast]

/-- The size of the number that a numeral denotes. -/
theorem abs_value (a : Numeral) : |a.value| = a.natural / 10 ^ a.places := by
  have hnonneg : (0 : ℚ) ≤ a.natural / 10 ^ a.places := by positivity
  rw [value]
  split_ifs
  · rw [abs_neg, abs_of_nonneg hnonneg]
  · exact abs_of_nonneg hnonneg

/-- The digits of a whole number are its own and zeros. -/
theorem natural_of_value {n : Int} (h : a.value = n) : a.natural = n.natAbs * 10 ^ a.places := by
  have habs := a.abs_value
  rw [h, eq_div_iff (by positivity), ← Int.cast_abs, Int.abs_eq_natAbs, Int.cast_natCast] at habs
  exact_mod_cast habs.symm

/-- A numeral with a minus denotes no positive number, any other no negative one. -/
theorem value_nonpos (h : a.sign.isMinus = true) : a.value ≤ 0 := by
  rw [value, if_pos h]
  exact neg_nonpos.2 (by positivity)

theorem value_nonneg (h : a.sign.isMinus = false) : 0 ≤ a.value := by
  rw [value, h]
  exact div_nonneg (by positivity) (by positivity)

theorem signed_natAbs {n : Int} (h : a.value = n) :
    (if a.sign.isMinus then -(n.natAbs : Int) else n.natAbs) = n := by
  cases hminus : a.sign.isMinus with
  | true =>
    have hn : n ≤ 0 := by exact_mod_cast h ▸ value_nonpos hminus
    rw [if_pos rfl]
    omega
  | false =>
    have hn : 0 ≤ n := by exact_mod_cast h ▸ value_nonneg hminus
    rw [if_neg Bool.false_ne_true]
    omega

end Numeral

namespace Value

variable {a b : Numeral}

/-- A numeral for a whole number is read as a value that stands for this number in a code. -/
theorem inCode_read_whole {n : Int} (h : a.value = n) (hn : n.natAbs ≤ 2 ^ 53) :
    (read a.text).inCode = .int n := by
  rw [read_numeral]
  split_ifs with hshort
  · have heq : a.integer = n := by exact_mod_cast (Numeral.value_of_isShort hshort).symm.trans h
    rw [heq]
    rfl
  · rw [inCode, Numeral.natural_of_value h, Binary64.toInt?_ofRatio (by positivity) hn,
      Numeral.signed_natAbs h]

/-- Numerals for one number that is not whole are read as one double. -/
theorem read_fraction (h : a.value = b.value) (hfraction : ∀ n : Int, a.value ≠ n) :
    read a.text = read b.text := by
  have hsign : a.sign.isMinus = b.sign.isMinus := by
    by_contra hne
    have hzero : a.value = 0 := by
      cases hminus : a.sign.isMinus with
      | true =>
        have hb : b.sign.isMinus = false := by simpa [hminus] using hne
        exact le_antisymm (Numeral.value_nonpos hminus) (h ▸ Numeral.value_nonneg hb)
      | false =>
        have hb : b.sign.isMinus = true := by simpa [hminus] using hne
        exact le_antisymm (h ▸ Numeral.value_nonpos hb) (Numeral.value_nonneg hminus)
    exact hfraction 0 (by rw [hzero, Int.cast_zero])
  have hcross : a.natural * 10 ^ b.places = b.natural * 10 ^ a.places := by
    have habs := congrArg abs h
    rw [Numeral.abs_value, Numeral.abs_value,
      div_eq_div_iff (by positivity) (by positivity)] at habs
    exact_mod_cast habs
  have ha : ¬ a.IsShort := fun hshort => hfraction _ (Numeral.value_of_isShort hshort)
  have hb : ¬ b.IsShort := fun hshort =>
    hfraction _ (h.trans (Numeral.value_of_isShort hshort))
  rw [read_numeral, read_numeral, if_neg ha, if_neg hb, hsign,
    Binary64.ofRatio_congr _ (by positivity) (by positivity) hcross]

end Value

/-! ### Codes -/

theorem Integer.render_injective {n n' : Int} (h : render n = render n') : n = n' := by
  have hminus (k : Nat) : '-' ∉ Nat.toDigits 10 k := fun hmem =>
    absurd (Nat.isDigit_of_mem_toDigits (by decide) (by decide) hmem) (by decide)
  have hdigits {k k' : Nat} (h : Nat.toDigits 10 k = Nat.toDigits 10 k') : k = k' := by
    rw [← Nat.ofDigitChars_ten_toDigits (n := k), h, Nat.ofDigitChars_ten_toDigits]
  cases n with
  | ofNat k =>
    cases n' with
    | ofNat k' => rw [hdigits h]
    | negSucc k' =>
      have h : Nat.toDigits 10 k = '-' :: Nat.toDigits 10 (k' + 1) := h
      exact absurd (h ▸ List.mem_cons_self) (hminus k)
  | negSucc k =>
    cases n' with
    | ofNat k' =>
      have h : '-' :: Nat.toDigits 10 (k + 1) = Nat.toDigits 10 k' := h
      exact absurd (h ▸ List.mem_cons_self) (hminus k')
    | negSucc k' =>
      have hsucc := hdigits (List.cons.inj h).2
      rw [Nat.succ.inj hsucc]

namespace Word

/-- The code of a command word whose value is written in the given way. -/
def codeOf (letter : String) (r : List Char) : String := code ⟨letter, Value.read r⟩

/-- Each text that is read as a number denotes one. If it is not larger than `2 ^ 53`, the code does
not depend on how the number is written, that of a whole number is the plain one, and different
whole numbers have different codes. -/
theorem code_canonical (letter : String) {r r' : List Char}
    (hr : ∀ c ∈ r, Scan.isValueChar c = true) (hr' : ∀ c ∈ r', Scan.isValueChar c = true)
    (hread : (Value.read r).IsNumber) (hread' : (Value.read r').IsNumber) :
    ∃ q q' : ℚ, (∀ x, Denotes r x ↔ x = q) ∧ (∀ x, Denotes r' x ↔ x = q') ∧
      (|q| ≤ 2 ^ 53 → |q'| ≤ 2 ^ 53 →
        (q = q' → codeOf letter r = codeOf letter r') ∧
        (∀ n : Int, q = n → codeOf letter r = letter ++ String.ofList (Integer.render n)) ∧
        ∀ n n' : Int, q = n → q' = n' → n ≠ n' → codeOf letter r ≠ codeOf letter r') := by
  obtain ⟨q, ⟨a, rfl, rfl⟩, hunique⟩ := (Value.isNumber_read_iff hr).1 hread
  obtain ⟨q', ⟨b, rfl, rfl⟩, hunique'⟩ := (Value.isNumber_read_iff hr').1 hread'
  refine ⟨a.value, b.value, fun x => ⟨hunique x, fun h => ⟨a, rfl, h.symm⟩⟩,
    fun x => ⟨hunique' x, fun h => ⟨b, rfl, h.symm⟩⟩, fun hsmall hsmall' => ?_⟩
  have hwhole {a : Numeral} (hsmall : |a.value| ≤ 2 ^ 53) {n : Int} (h : a.value = n) :
      codeOf letter a.text = letter ++ String.ofList (Integer.render n) := by
    have hn : n.natAbs ≤ 2 ^ 53 := by
      rw [h, ← Int.cast_abs, Int.abs_eq_natAbs] at hsmall
      exact_mod_cast hsmall
    rw [codeOf, code, Value.inCode_read_whole h hn]
    rfl
  refine ⟨fun heq => ?_, fun n h => hwhole hsmall h, fun n n' h h' hne hcode => hne ?_⟩
  · by_cases hint : ∃ n : Int, a.value = n
    · obtain ⟨n, hn⟩ := hint
      rw [hwhole hsmall hn, hwhole hsmall' (heq ▸ hn)]
    · rw [codeOf, codeOf, Value.read_fraction heq fun n hn => hint ⟨n, hn⟩]
  · rw [hwhole hsmall h, hwhole hsmall' h', String.append_right_inj, String.ofList_inj] at hcode
    exact Integer.render_injective hcode

/-- Two spellings of the number one. -/
theorem code_canonical_one :
    (∀ c ∈ ['0', '1'], Scan.isValueChar c = true) ∧
      (∀ c ∈ ['+', '1', '.', '0'], Scan.isValueChar c = true) ∧
      (Value.read ['0', '1']).IsNumber ∧ (Value.read ['+', '1', '.', '0']).IsNumber ∧
      codeOf "G" ['0', '1'] = codeOf "G" ['+', '1', '.', '0'] := by
  have hr : ∀ c ∈ ['0', '1'], Scan.isValueChar c = true := by simp [Scan.isValueChar]
  have hr' : ∀ c ∈ ['+', '1', '.', '0'], Scan.isValueChar c = true := by simp [Scan.isValueChar]
  let a : Numeral := ⟨.absent, ['0', '1'], none, by simp, by simp⟩
  let b : Numeral := ⟨.plus, ['1'], some ['0'], by simp, by simp⟩
  have ha : Denotes ['0', '1'] 1 := ⟨a, rfl, by decide +kernel⟩
  have hb : Denotes ['+', '1', '.', '0'] 1 := ⟨b, rfl, by decide +kernel⟩
  have hread : (Value.read ['0', '1']).IsNumber :=
    (Value.isNumber_read_iff hr).2 ⟨1, ha, fun q hq => hq.unique ha⟩
  have hread' : (Value.read ['+', '1', '.', '0']).IsNumber :=
    (Value.isNumber_read_iff hr').2 ⟨1, hb, fun q hq => hq.unique hb⟩
  refine ⟨hr, hr', hread, hread', ?_⟩
  obtain ⟨q, q', hq, hq', h⟩ := code_canonical "G" hr hr' hread hread'
  obtain rfl : 1 = q := (hq 1).1 ha
  obtain rfl : 1 = q' := (hq' 1).1 hb
  exact (h (by norm_num) (by norm_num)).1 rfl

end Word

end Gcode
