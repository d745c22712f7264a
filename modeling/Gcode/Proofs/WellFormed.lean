import Gcode.Proofs.OnePass
import Gcode.Proofs.Resolution

/-!
Well-formed data. A word has an upper-case letter, and for its value an integer, a number, or a text
that stands for neither; a line has such words only, and none at all if it is a directive; a code is
a command letter with a text behind it; and the arguments of a command stand under letters that begin
no command. Whatever is read is well-formed (`Line.parse_wellFormed`), and so is what a group of its
words resolves to (`Group.resolve_wellFormed`).
-/

namespace Gcode

open Gcode.Text

/-- A letter from `A` to `Z`. -/
def IsLetter (s : String) : Prop := ∃ c : Char, c.isUpper = true ∧ s = String.singleton c

/-- A command letter with a text behind it. -/
def IsCode (code : String) : Prop :=
  ∃ rest : String, rest ≠ "" ∧ (code = "G" ++ rest ∨ code = "M" ++ rest)

theorem IsCode.ne_empty {code : String} (h : IsCode code) : code ≠ "" := by
  rcases h with ⟨rest, -, rfl | rfl⟩ <;> simp

/-- An integer, a number, or a text that is not empty and stands for neither. -/
def Value.WellFormed : Value → Prop
  | .int _ => True
  | .float x => x ≠ .nan
  | .text s => s ≠ "" ∧ (∀ n, Integer.read s.toList ≠ .ok n) ∧ Decimal.read? s.toList = none

/-- A letter with a value. -/
structure Word.WellFormed (w : Word) : Prop where
  letter : IsLetter w.letter
  value : w.value.WellFormed

/-- A line of well-formed words, of which a directive has none. A checksum is right or wrong if there
is one. -/
structure Line.WellFormed (l : Line) : Prop where
  words : ∀ w ∈ l.words, w.WellFormed
  directive : l.directive ≠ none → l.words = [] ∧ l.number = none
  checksum : l.checksum.map Checksum.ok = none ↔ l.checksum.map Checksum.stated = none

/-- Values under letters that begin no command. -/
def Args.WellFormed (args : Args) : Prop :=
  ∀ e ∈ args.entries, IsLetter e.1 ∧ e.1 ≠ "G" ∧ e.1 ≠ "M" ∧ e.2.WellFormed

/-! ### Values -/

namespace Binary64

theorem pack_ne_nan (negative : Bool) (significand unit : Nat) :
    pack negative significand unit ≠ .nan := by
  rw [pack]
  generalize (if significand = Nat.pow 2 53 then (Nat.pow 2 52, unit + 1)
    else (significand, unit)) = r
  by_cases h : maxUnit < r.2
  · simp [h]
  · simp [h]

theorem ofRatio_ne_nan (negative : Bool) (num den : Nat) : ofRatio negative num den ≠ .nan :=
  pack_ne_nan _ _ _

end Binary64

theorem toLower_of_isValueChar {c : Char} (hc : Scan.isValueChar c = true) : c.toLower = c := by
  have hle := toNat_le_of_isValueChar hc
  have hupper : ¬ (65 : UInt32) ≤ c.val := by
    intro h
    have hval : c.val.toNat = c.toNat := rfl
    have := UInt32.le_iff_toNat_le.1 h
    simp at this
    omega
  simp [Char.toLower, hupper]

theorem mem_splitSign {s : List Char} {c : Char} (hc : c ∈ (Integer.splitSign s).2) : c ∈ s := by
  rw [Integer.splitSign.eq_def] at hc
  split at hc
  · exact List.mem_cons_of_mem _ hc
  · exact List.mem_cons_of_mem _ hc
  · exact hc

theorem mem_trimWhile {p : Char → Bool} {s : List Char} {c : Char} (hc : c ∈ trimWhile p s) :
    c ∈ s := by
  have hfront : c ∈ s.dropWhile p :=
    List.mem_reverse.1 ((List.dropWhile_sublist p).mem (List.mem_reverse.1 hc))
  exact (List.dropWhile_sublist p).mem hfront

namespace Decimal

/-- The characters of values spell no name. -/
theorem named?_eq_none {body : List Char} (h : ∀ c ∈ body, Scan.isValueChar c = true)
    (negative : Bool) : named? negative body = none := by
  have hlower : body.map Char.toLower = body :=
    (List.map_congr_left fun c hc => toLower_of_isValueChar (h c hc)).trans (List.map_id body)
  have hname : ∀ (c : Char) (cs : List Char), Scan.isValueChar c = false →
      String.ofList body ≠ String.ofList (c :: cs) := by
    intro c cs hc heq
    rw [String.ofList_injective heq] at h
    exact absurd (h c List.mem_cons_self) (by simp [hc])
  have hinf : String.ofList body ≠ "inf" := hname 'i' ['n', 'f'] (by decide)
  have hinfinity : String.ofList body ≠ "infinity" :=
    hname 'i' ['n', 'f', 'i', 'n', 'i', 't', 'y'] (by decide)
  have hnan : String.ofList body ≠ "nan" := hname 'n' ['a', 'n'] (by decide)
  simp [named?, hlower, hinf, hinfinity, hnan]

theorem read?_ne_nan {raw : List Char} (hraw : ∀ c ∈ raw, Scan.isValueChar c = true) :
    read? raw ≠ some .nan := by
  have hbody : ∀ c ∈ (Integer.splitSign ((trimWhile isPadding raw).filter (· != '_'))).2,
      Scan.isValueChar c = true :=
    fun c hc => hraw c (mem_trimWhile (List.mem_of_mem_filter (mem_splitSign hc)))
  rw [read?]
  dsimp only
  split
  · rw [named?_eq_none hbody]
    simp [round, Binary64.ofRatio_ne_nan]
  · exact nofun

end Decimal

namespace Value

/-- The characters behind a letter give a well-formed value. -/
theorem read_wellFormed {raw : List Char} (hne : raw ≠ [])
    (hraw : ∀ c ∈ raw, Scan.isValueChar c = true) : (read raw).WellFormed := by
  cases hint : Integer.read raw with
  | ok n => simp [read, hint, WellFormed]
  | error r =>
    cases hdecimal : Decimal.read? raw with
    | some x =>
      have hx : x ≠ .nan := by
        rintro rfl
        exact Decimal.read?_ne_nan hraw hdecimal
      simpa [read, hint, hdecimal, WellFormed] using hx
    | none => simp [read, hint, hdecimal, WellFormed, hne]

end Value

theorem Integer.render_ne_nil (n : Int) : Integer.render n ≠ [] := by
  cases n with
  | ofNat n => exact Nat.toDigits_ne_nil
  | negSucc n => exact List.cons_ne_nil _ _

theorem Binary64.layout_ne_nil (d : Decimal) : layout d ≠ [] := by
  rw [layout]
  dsimp only
  split
  · split
    · exact List.cons_ne_nil _ _
    · simp
  · split
    · exact absurd ‹_› Nat.toDigits_ne_nil
    · exact List.cons_ne_nil _ _
    · exact List.cons_ne_nil _ _

theorem Binary64.render_ne_nil (x : Binary64) : x.render ≠ [] := by
  cases x with
  | nan => exact List.cons_ne_nil _ _
  | infinite negative => simp [render]
  | finite negative m p =>
    rw [render]
    by_cases hm : m = 0
    · simp [hm]
    · simp [hm, layout_ne_nil]

namespace Value

theorem WellFormed.inCode {v : Value} (h : v.WellFormed) : v.inCode.WellFormed := by
  cases v with
  | int n => exact h
  | text s => exact h
  | float x =>
    rw [Value.inCode]
    split
    · trivial
    · exact h

/-- A well-formed value has a text. -/
theorem WellFormed.render_ne_empty {v : Value} (h : v.WellFormed) : v.render ≠ "" := by
  cases v with
  | int n => simpa [render] using Integer.render_ne_nil n
  | float x => simpa [render] using Binary64.render_ne_nil x
  | text s => exact h.1

end Value

/-! ### Words and lines -/

theorem Word.isCommand_iff {w : Word} : w.isCommand = true ↔ w.letter = "G" ∨ w.letter = "M" := by
  simp [isCommand, commandLetters]

theorem Word.WellFormed.isCode {w : Word} (h : w.WellFormed) (hw : w.isCommand = true) :
    IsCode w.code := by
  refine ⟨w.value.inCode.render, h.value.inCode.render_ne_empty, ?_⟩
  rcases isCommand_iff.1 hw with hletter | hletter
  · exact .inl (by rw [code, hletter])
  · exact .inr (by rw [code, hletter])

namespace Scan

theorem words_wellFormed (s : List Char) : ∀ w ∈ words s, w.WellFormed := by
  induction s with
  | nil => exact fun w hw => absurd hw List.not_mem_nil
  | cons c s ih =>
    rw [words]
    split
    · rename_i hc
      obtain ⟨hletter, hstarts⟩ := Bool.and_eq_true_iff.1 hc
      have hne : s.takeWhile isValueChar ≠ [] := by
        cases s with
        | nil => cases hstarts
        | cons d s => simp [show isValueChar d = true from hstarts]
      refine List.forall_mem_cons.2 ⟨⟨⟨c.toUpper, ?_, rfl⟩, ?_⟩, ih⟩
      · rw [Char.isUpper_toUpper_eq_isAlpha, hletter]
      · exact Value.read_wellFormed hne fun d hd => List.mem_takeWhile_imp hd
    · exact ih

theorem takeNumber_sublist : ∀ ws : List Word, (takeNumber ws).2.Sublist ws
  | [] => .slnil
  | w :: ws => by
    rw [takeNumber]
    split
    · exact List.sublist_cons_self w ws
    · exact (takeNumber_sublist ws).cons_cons w

end Scan

/-- Every line that is read is well-formed. -/
theorem Line.parse_wellFormed {strict : Bool} {text : List Char} {place : Option Int} {l : Line}
    (h : Line.parse strict text place = .ok (some l)) : l.WellFormed := by
  have hchecksum : ∀ l : Line,
      l.checksum.map Checksum.ok = none ↔ l.checksum.map Checksum.stated = none := by
    simp
  rw [parse] at h
  dsimp only at h
  split at h
  · cases h
  split at h
  · cases h
  split at h
  · cases h
    exact ⟨fun w hw => absurd hw List.not_mem_nil, fun _ => ⟨rfl, rfl⟩, hchecksum _⟩
  split at h
  · cases h
    exact ⟨fun w hw => absurd hw List.not_mem_nil, fun _ => ⟨rfl, rfl⟩, hchecksum _⟩
  split at h
  · cases h
  · cases h
    refine ⟨fun w hw => ?_, fun hno => absurd rfl hno, hchecksum _⟩
    exact Scan.words_wellFormed _ w ((Scan.takeNumber_sublist _).mem hw)

/-- A reading without a fault gives well-formed lines. -/
theorem Reading.lines_wellFormed {strict : Bool} {parts : List (List Char)} {count : Nat}
    {ls : List Line} (h : (Reading.ofLines strict count parts).lines = .ok ls) :
    ∀ l ∈ ls, l.WellFormed := by
  intro l hl
  have hread : (.ok (some l) : Except Fault (Option Line)) ∈ ls.map fun l => .ok (some l) :=
    List.mem_map_of_mem hl
  rw [← Reading.lines_ofLines strict parts h] at hread
  obtain ⟨p, -, hp⟩ := List.mem_map.1 hread
  exact Line.parse_wellFormed hp

/-! ### Commands -/

theorem Args.ofWords_wellFormed {ws : List Word} (h : ∀ w ∈ ws, w.WellFormed ∧ ¬ w.isCommand) :
    (Args.ofWords ws).WellFormed := by
  intro e he
  obtain ⟨w, hw, rfl⟩ := List.mem_map.1 (Table.mem_ofList he)
  obtain ⟨hword, hcommand⟩ := h w hw
  rw [Word.isCommand_iff, not_or] at hcommand
  exact ⟨hword.letter, hcommand.1, hcommand.2, hword.value⟩

/-- A group of well-formed words, of which the first alone may begin a command. -/
structure Group.WellFormed (g : Group) : Prop where
  leading : g.leading.WellFormed
  rest : ∀ w ∈ g.rest, w.WellFormed ∧ ¬ w.isCommand

theorem Group.partition_wellFormed {ws : List Word} (h : ∀ w ∈ ws, w.WellFormed) :
    ∀ g ∈ partition ws, g.WellFormed := by
  intro g hg
  obtain ⟨i, hstarts⟩ := exists_startsAt hg
  refine ⟨h _ (List.mem_of_getElem? hstarts.leading), fun w hw => ⟨?_, hstarts.single w hw⟩⟩
  rw [hstarts.rest] at hw
  exact h w (List.mem_of_mem_drop ((List.takeWhile_sublist _).mem hw))

/-- A group of well-formed words sets a code or continues the modal command, and its arguments stand
under letters that begin no command. -/
theorem Group.resolve_wellFormed {g : Group} (h : g.WellFormed) (modal : String) :
    (IsCode (g.resolve modal).code ∨ (g.resolve modal).code = modal) ∧
      (g.resolve modal).args.WellFormed := by
  rw [resolve]
  split
  · rename_i hcommand
    exact ⟨.inl (h.leading.isCode hcommand), Args.ofWords_wellFormed h.rest⟩
  · rename_i hcommand
    exact ⟨.inr rfl, Args.ofWords_wellFormed (List.forall_mem_cons.2 ⟨⟨h.leading, hcommand⟩, h.rest⟩)⟩

end Gcode
