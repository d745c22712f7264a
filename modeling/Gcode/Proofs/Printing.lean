import Gcode.Proofs.NamedMethods
import Gcode.Proofs.ShortestText

/-!
Commands that are printed read back. A value that was read is written as a text of value characters
that is read as the same value again, if a double among them is written without an exponent. So a
printed command is a line of its own words: the code and then the arguments, each ending where the
next begins. Main statement: this line is read, strictly as well as leniently, and resolves to the
command that was printed (`Command.parse_render`).
-/

namespace Gcode

open Gcode.Text

/-! ### Values -/

namespace Value

/-- A double of the value is written without an exponent. -/
def IsPlain (v : Value) : Prop := ∀ x, v = .float x → x.IsPlain

/-- A double of the value is written without an exponent, or as an integer. -/
def IsPlainInCode (v : Value) : Prop := ∀ x, v = .float x → x.IsPlain ∨ x.toInt? ≠ none

/-- The characters that a value is written with are read as the value. -/
structure ReadsBack (v : Value) : Prop where
  ne_nil : v.render.toList ≠ []
  isValueChar : ∀ c ∈ v.render.toList, Scan.isValueChar c = true
  read_eq : read v.render.toList = v

theorem natAbs_signed (negative : Bool) (k : Nat) :
    (if negative then -(k : Int) else k).natAbs = k := by
  cases negative with
  | true => exact (Int.natAbs_neg _).trans (Int.natAbs_natCast k)
  | false => exact Int.natAbs_natCast k

theorem readsBack_int {n : Int} (h : n.natAbs < 10 ^ Integer.maxDigits) :
    (Value.int n).ReadsBack := by
  let a : Numeral := ⟨.written (decide (n < 0)), Nat.toDigits 10 n.natAbs, none,
    by simpa using Decimal.isDigit_toDigits, by simp⟩
  have htext : a.text = Integer.render n := by
    rw [Numeral.text, Numeral.Sign.chars_written, Numeral.body, Numeral.pointed_none,
      List.append_nil]
    cases n with
    | ofNat k => rfl
    | negSucc k =>
      have hneg : decide (Int.negSucc k < 0) = true := decide_eq_true (Int.negSucc_lt_zero k)
      rw [hneg]
      rfl
  have hshort : a.IsShort :=
    ⟨rfl, (Nat.length_toDigits_le_iff (by decide) (by decide)).2 h⟩
  have hnatural : a.natural = n.natAbs := by
    rw [Numeral.natural, Numeral.digits]
    exact (congrArg (Nat.ofDigitChars 10 · 0) (List.append_nil _)).trans
      Nat.ofDigitChars_ten_toDigits
  have hinteger : a.integer = n := by
    rw [Numeral.integer, Numeral.Sign.isMinus_written, hnatural]
    by_cases hn : n < 0
    · rw [if_pos (by simpa using hn)]
      omega
    · rw [if_neg (by simpa using hn)]
      omega
  have hrender : (Value.int n).render.toList = a.text := by
    rw [htext, render, String.toList_ofList]
  refine ⟨?_, ?_, ?_⟩
  · rw [hrender, htext]
    exact Integer.render_ne_nil n
  · rw [hrender]
    exact a.isValueChar_text
  · rw [hrender, read_numeral, if_pos hshort, hinteger]

theorem readsBack_float {x : Binary64} (hx : x.Canonical) (hplain : x.IsPlain) :
    (Value.float x).ReadsBack := by
  obtain ⟨a, htext, hread⟩ := read_render_float hx hplain
  have hrender : (Value.float x).render.toList = a.text := by
    rw [htext, render, String.toList_ofList]
  refine ⟨?_, ?_, ?_⟩
  · rw [hrender, htext]
    exact Binary64.render_ne_nil x
  · rw [hrender]
    exact a.isValueChar_text
  · rw [hrender, hread]

/-- What was read is an integer of not too many digits, a double that can occur, or the text. -/
theorem read_cases {r : List Char} (h : ∀ c ∈ r, Scan.isValueChar c = true) :
    (∃ n : Int, n.natAbs < 10 ^ Integer.maxDigits ∧ read r = .int n) ∨
      (∃ x : Binary64, x.Canonical ∧ read r = .float x) ∨ read r = .text (String.ofList r) := by
  rcases read_by_numeral h with ⟨a, -, hshort, hread⟩ | ⟨a, -, -, hread⟩ | ⟨-, hread⟩
  · refine .inl ⟨a.integer, ?_, hread⟩
    have hsize : a.integer.natAbs = a.natural := natAbs_signed _ _
    have hlength : a.digits.length ≤ Integer.maxDigits := by
      rw [Numeral.digits, hshort.1]
      simpa using hshort.2
    rw [hsize]
    exact (ofDigitChars_lt a.isDigit).trans_le (Nat.pow_le_pow_right (by decide) hlength)
  · exact .inr (.inl ⟨_, Binary64.canonical_ofRatio _ _ _, hread⟩)
  · exact .inr (.inr hread)

variable {r : List Char}

theorem readsBack_read (hne : r ≠ []) (h : ∀ c ∈ r, Scan.isValueChar c = true)
    (hplain : (read r).IsPlain) : (read r).ReadsBack := by
  rcases read_cases h with ⟨n, hn, hread⟩ | ⟨x, hx, hread⟩ | hread
  · rw [hread]
    exact readsBack_int hn
  · rw [hread] at hplain ⊢
    exact readsBack_float hx (hplain x rfl)
  · have hrender : (read r).render.toList = r := by rw [hread, render, String.toList_ofList]
    exact ⟨hrender.symm ▸ hne, hrender.symm ▸ h, by rw [hrender]⟩

/-- A double that can occur is not too large to be written as an integer and read again. -/
theorem natAbs_toInt?_lt {x : Binary64} (hx : x.Canonical) {n : Int} (h : x.toInt? = some n) :
    n.natAbs < 10 ^ Integer.maxDigits := by
  cases x with
  | nan => cases h
  | infinite negative => cases h
  | finite negative m p =>
    obtain ⟨hm, -, hp⟩ := hx
    rw [Binary64.toInt?] at h
    simp only [Nat.pow_eq] at h hm
    by_cases hwhole : m * 2 ^ p % Binary64.one = 0
    case neg =>
      rw [if_neg hwhole] at h
      cases h
    rw [if_pos hwhole] at h
    have hsize : n.natAbs = m * 2 ^ p / Binary64.one := by
      rw [← Option.some.inj h]
      exact natAbs_signed _ _
    rw [hsize]
    calc m * 2 ^ p / Binary64.one ≤ m * 2 ^ p := Nat.div_le_self _ _
      _ < 2 ^ 53 * 2 ^ p := Nat.mul_lt_mul_of_pos_right hm (Nat.pow_pos Nat.two_pos)
      _ = 2 ^ (53 + p) := (Nat.pow_add 2 53 p).symm
      _ ≤ 10 ^ (53 + p) := Nat.pow_le_pow_left (by decide) _
      _ ≤ 10 ^ Integer.maxDigits := Nat.pow_le_pow_right (by decide)
        ((Nat.add_le_add_left hp 53).trans (by decide))

theorem readsBack_inCode (hne : r ≠ []) (h : ∀ c ∈ r, Scan.isValueChar c = true)
    (hplain : (read r).IsPlainInCode) : (read r).inCode.ReadsBack := by
  have hback := readsBack_read hne h
  cases hread : read r with
  | int n =>
    rw [hread] at hback
    exact hback nofun
  | text s =>
    rw [hread] at hback
    exact hback nofun
  | float x =>
    have hx : x.Canonical := by
      rcases read_cases h with ⟨n, -, hn⟩ | ⟨y, hy, hfloat⟩ | htext
      · rw [hn] at hread
        cases hread
      · rw [hfloat] at hread
        cases hread
        exact hy
      · rw [htext] at hread
        cases hread
    rw [inCode]
    cases hwhole : x.toInt? with
    | some n => exact readsBack_int (natAbs_toInt?_lt hx hwhole)
    | none => exact readsBack_float hx ((hplain x hread).resolve_right (· hwhole))

/-- A value in a code is in a code what it is. -/
theorem inCode_inCode (v : Value) : v.inCode.inCode = v.inCode := by
  cases v with
  | int n => rfl
  | text s => rfl
  | float x =>
    cases hwhole : x.toInt? with
    | some n => simp only [inCode, hwhole]
    | none => simp only [inCode, hwhole]

end Value

/-! ### Words -/

/-- A value is that of a text of value characters. -/
def Value.IsRead (v : Value) : Prop :=
  ∃ r : List Char, r ≠ [] ∧ (∀ c ∈ r, Scan.isValueChar c = true) ∧ v = read r

namespace Scan

theorem isRead_of_mem_words {s : List Char} {w : Word} (hw : w ∈ words s) : w.value.IsRead := by
  induction s with
  | nil => cases hw
  | cons c s ih =>
    rw [words] at hw
    split at hw
    · rename_i hc
      rcases List.mem_cons.1 hw with rfl | hw
      · refine ⟨s.takeWhile isValueChar, ?_, fun d hd => List.mem_takeWhile_imp hd, rfl⟩
        obtain ⟨-, hstarts⟩ := Bool.and_eq_true_iff.1 hc
        cases s with
        | nil => cases hstarts
        | cons d s => simp [show isValueChar d = true from hstarts]
      · exact ih hw
    · exact ih hw

end Scan

/-- The words of a line are those of a text, without the line number. -/
theorem Line.words_of_parse {strict : Bool} {text : List Char} {place : Option Int} {l : Line}
    (h : Line.parse strict text place = .ok (some l)) :
    ∃ s, l.words.Sublist (Scan.words s) := by
  rw [parse] at h
  dsimp only at h
  split at h
  · cases h
  split at h
  · cases h
  split at h
  · cases h
    exact ⟨[], .slnil⟩
  split at h
  · cases h
    exact ⟨[], .slnil⟩
  split at h
  · cases h
  · cases h
    exact ⟨_, Scan.takeNumber_sublist _⟩

namespace Word

variable {w : Word}

/-- A word of a line that was read leniently. -/
def IsRead (w : Word) : Prop :=
  ∃ text place l, Line.parse false text place = .ok (some l) ∧ w ∈ l.words

theorem IsRead.wellFormed (h : w.IsRead) : w.WellFormed := by
  obtain ⟨text, place, l, hparse, hw⟩ := h
  exact (Line.parse_wellFormed hparse).words w hw

theorem IsRead.value (h : w.IsRead) : w.value.IsRead := by
  obtain ⟨text, place, l, hparse, hw⟩ := h
  obtain ⟨s, hs⟩ := Line.words_of_parse hparse
  exact Scan.isRead_of_mem_words (hs.mem hw)

theorem IsRead.readsBack (h : w.IsRead) (hplain : w.value.IsPlain) : w.value.ReadsBack := by
  obtain ⟨r, hne, hr, hvalue⟩ := h.value
  rw [hvalue] at hplain ⊢
  exact Value.readsBack_read hne hr hplain

theorem IsRead.readsBack_inCode (h : w.IsRead) (hplain : w.value.IsPlainInCode) :
    w.value.inCode.ReadsBack := by
  obtain ⟨r, hne, hr, hvalue⟩ := h.value
  rw [hvalue] at hplain ⊢
  exact Value.readsBack_inCode hne hr hplain

/-- A word under a letter whose value reads back is spelled by what is written for it. -/
theorem exists_spelling (hletter : IsLetter w.letter) (hvalue : w.value.ReadsBack) :
    ∃ v : Spelling, v.word = w ∧ w.render.toList = v.chars := by
  obtain ⟨c, hc, hletter⟩ := hletter
  have halpha : c.isAlpha = true := by rw [Char.isAlpha, hc, Bool.true_or]
  have hupper : c.toUpper = c :=
    Char.toUpper_eq_of_not_isLower (Char.not_isLower_of_isUpper hc)
  refine ⟨⟨c, w.value.render.toList, halpha, hvalue.ne_nil, hvalue.isValueChar⟩, ?_, ?_⟩
  · rw [Spelling.word, hupper, hvalue.read_eq, ← hletter]
  · rw [render, String.toList_append, hletter, String.toList_singleton]
    rfl

/-- What is behind a command letter in a code. -/
def inCode (w : Word) : Word := ⟨w.letter, w.value.inCode⟩

theorem render_inCode (w : Word) : w.inCode.render = w.code := rfl

theorem code_inCode (w : Word) : w.inCode.code = w.code := by
  rw [code, inCode, Value.inCode_inCode]
  rfl

end Word

/-! ### Spelling a command -/

namespace Spelling

/-- The characters of some words, each with a space before it. -/
def spaced (ws : List Spelling) : List Char := ws.flatMap fun w => ' ' :: w.chars

@[simp]
theorem spaced_cons (w : Spelling) (ws : List Spelling) :
    spaced (w :: ws) = ' ' :: (w.chars ++ spaced ws) := rfl

theorem isBlank_of_mem_text {ws : List Spelling} {c : Char} (hc : c ∈ text ws) :
    isBlank c = false := by
  rcases mem_text hc with h | h
  · exact isBlank_of_isAlpha h
  · exact isBlank_of_isValueChar h

theorem compact_text (ws : List Spelling) : Line.compact (text ws) = text ws :=
  List.filter_eq_self.2 fun c hc => by rw [isBlank_of_mem_text hc]; rfl

theorem compact_spaced (ws : List Spelling) : Line.compact (spaced ws) = text ws := by
  induction ws with
  | nil => rfl
  | cons w ws ih =>
    have hchars : Line.compact w.chars = w.chars := by
      have h := compact_text [w]
      rwa [text, List.flatMap_singleton] at h
    rw [Line.compact] at ih hchars ⊢
    rw [spaced_cons, List.filter_cons_of_neg (by decide), List.filter_append, hchars, ih]
    rfl

theorem mem_spaced {ws : List Spelling} {c : Char} (hc : c ∈ spaced ws) :
    c = ' ' ∨ c ∈ text ws := by
  obtain ⟨w, hw, hc⟩ := List.mem_flatMap.1 hc
  rcases List.mem_cons.1 hc with rfl | hc
  · exact .inl rfl
  · exact .inr (List.mem_flatMap.2 ⟨w, hw, hc⟩)

/-- Some words, and others with spaces between them, are spelled by their characters. -/
theorem spells_append_spaced (ws vs : List Spelling) :
    Line.Spells (text ws ++ spaced vs) (ws ++ vs) := by
  have hno {c : Char} (hblank : isBlank c = true) (hspace : c ≠ ' ') :
      c ∉ text ws ++ spaced vs := by
    have htext {us : List Spelling} : c ∉ text us := fun hc => by
      rw [isBlank_of_mem_text hc] at hblank
      cases hblank
    intro hc
    rcases List.mem_append.1 hc with hc | hc
    · exact htext hc
    · rcases mem_spaced hc with h | h
      · exact hspace h
      · exact htext h
  refine ⟨hno (by decide) (by decide), hno (by decide) (by decide), ?_⟩
  have hsplit : Line.compact (text ws ++ spaced vs) =
      Line.compact (text ws) ++ Line.compact (spaced vs) := List.filter_append ..
  rw [hsplit, compact_text, compact_spaced, text, text, text, List.flatMap_append]

end Spelling

namespace Command

/-- The arguments of a command as words. -/
def argumentWords (c : Command) : List Word := c.args.entries.map fun e => ⟨e.1, e.2⟩

/-- A command is written as its code, and then its arguments with spaces between them. -/
theorem exists_spellings {c : Command} (h : ∀ w ∈ c.argumentWords, IsLetter w.letter ∧
    w.value.ReadsBack) :
    ∃ ws : List Spelling, ws.map Spelling.word = c.argumentWords ∧
      c.render.toList = c.code.toList ++ Spelling.spaced ws := by
  obtain ⟨code, ⟨es⟩⟩ := c
  rw [render]
  rw [argumentWords] at h ⊢
  dsimp only at h ⊢
  induction es generalizing code with
  | nil => exact ⟨[], rfl, (List.append_nil _).symm⟩
  | cons e es ih =>
    rw [List.map_cons, List.forall_mem_cons] at h
    obtain ⟨⟨hletter, hvalue⟩, hes⟩ := h
    obtain ⟨w, hw, hchars⟩ := Word.exists_spelling hletter hvalue
    obtain ⟨ws, hws, hrender⟩ := ih (code ++ " " ++ e.1 ++ e.2.render) hes
    refine ⟨w :: ws, ?_, ?_⟩
    · rw [List.map_cons, List.map_cons, hw, hws]
    · rw [Word.render, String.toList_append] at hchars
      rw [List.foldl_cons, hrender, Spelling.spaced_cons, ← hchars]
      simp only [String.toList_append, List.append_assoc]
      rfl

/-- The words of arguments give the arguments. -/
theorem argsOfWords_argumentWords {c : Command} (h : c.args.names.Nodup) :
    Args.ofWords c.argumentWords = c.args := by
  have hentries : (c.argumentWords.map fun w => (w.letter, w.value)) = c.args.entries := by
    rw [argumentWords, List.map_map]
    exact List.map_id _
  rw [Args.ofWords, hentries]
  exact congrArg Table.mk (Table.entries_ofList h)

variable {c : Command} (hnodup : c.args.names.Nodup)
  (hcommand : ∀ w ∈ c.argumentWords, ¬ w.isCommand)

include hnodup hcommand

/-- A word for the code and the words of the arguments mean the command. -/
theorem ofWords_cons_argumentWords {w : Word} (hw : w.isCommand = true) (hcode : w.code = c.code) :
    ofWords "" (w :: c.argumentWords) = [c] := by
  rw [ofWords, Group.partition_single w hcommand, ofGroups, ofGroups, Group.resolve, if_pos hw,
    argsOfWords_argumentWords hnodup, hcode]

/-- The words of the arguments mean a command without a code. -/
theorem ofWords_argumentWords (hcode : c.code = "") (hne : c.argumentWords ≠ []) :
    ofWords "" c.argumentWords = [c] := by
  obtain ⟨w, ws, hws⟩ := List.exists_cons_of_ne_nil hne
  have hargs := argsOfWords_argumentWords hnodup
  rw [hws] at hargs hcommand
  obtain ⟨hw, hrest⟩ := List.forall_mem_cons.1 hcommand
  rw [hws, ofWords, Group.partition_single w hrest, ofGroups, ofGroups, Group.resolve, if_neg hw,
    Group.words, hargs, ← hcode]

end Command

namespace Group

/-- The words of the arguments of a group's command are words of the group, and none begins a
command. -/
theorem mem_argumentWords_resolve {g : Group} (hg : g.WellFormed) {modal : String} {w : Word}
    (hw : w ∈ (g.resolve modal).argumentWords) : w ∈ g.words ∧ ¬ w.isCommand := by
  obtain ⟨e, he, rfl⟩ := List.mem_map.1 hw
  rw [args_resolve] at he
  obtain ⟨v, hv, rfl⟩ := List.mem_map.1 (Table.mem_ofList he)
  split at hv
  · exact ⟨List.mem_cons_of_mem _ hv, (hg.rest v hv).2⟩
  · rename_i hleading
    refine ⟨hv, ?_⟩
    rcases List.mem_cons.1 hv with rfl | hv
    · exact hleading
    · exact (hg.rest v hv).2

theorem nodup_resolve (g : Group) (modal : String) : (g.resolve modal).args.names.Nodup := by
  rw [args_resolve]
  exact Table.nodup_ofList _

/-- The word that gives a group's command its code: its own, or else that of the modal command. -/
def codeWord (g : Group) (modal : Option Word) : Option Word :=
  if g.leading.isCommand then some g.leading else modal

end Group

/-- The modal command after a command word, empty before the first one. -/
def modalCode : Option Word → String
  | some w => w.code
  | none => ""

theorem Group.code_resolve_modalCode (g : Group) (modal : Option Word) :
    (g.resolve (modalCode modal)).code = modalCode (g.codeWord modal) := by
  rw [resolve, codeWord]
  split_ifs <;> rfl

/-- A group that sets no code has arguments. -/
theorem Group.argumentWords_ne_nil {g : Group} (hg : ¬ g.leading.isCommand) (modal : String) :
    (g.resolve modal).argumentWords ≠ [] := by
  intro hnil
  have hentries : (g.resolve modal).args.entries = [] := List.map_eq_nil_iff.1 hnil
  rw [args_resolve, if_neg hg] at hentries
  have hnames := Table.names_ofList (g.words.map fun w => (w.letter, w.value))
  rw [Table.names, ← Args.ofWords, hentries] at hnames
  have hmem : g.leading.letter ∈ ((g.words.map fun w => (w.letter, w.value)).map (·.1)).eraseDups :=
    List.mem_eraseDups.2 (by simp [words])
  rw [← hnames] at hmem
  cases hmem

namespace Command

/-- The code of a command is written by a word that means the code, or by none if it is empty. -/
theorem exists_head {c : Command} (hnodup : c.args.names.Nodup)
    (hcommand : ∀ w ∈ c.argumentWords, ¬ w.isCommand) {head : Option Word}
    (hcode : c.code = modalCode head)
    (hhead : ∀ w ∈ head, w.IsRead ∧ w.isCommand = true ∧ w.value.IsPlainInCode)
    (hne : head = none → c.argumentWords ≠ []) :
    ∃ vs : List Spelling, Spelling.text vs = c.code.toList ∧ (vs = [] → c.argumentWords ≠ []) ∧
      (∀ w ∈ vs.map Spelling.word, Scan.numberOf? w = none) ∧
      ofWords "" (vs.map Spelling.word ++ c.argumentWords) = [c] := by
  cases head with
  | none =>
    refine ⟨[], ?_, fun _ => hne rfl, nofun, ofWords_argumentWords hnodup hcommand hcode (hne rfl)⟩
    rw [hcode]
    rfl
  | some w =>
    obtain ⟨hread, hw, hplain⟩ := hhead w rfl
    obtain ⟨v, hv, hchars⟩ := Word.exists_spelling (w := w.inCode) hread.wellFormed.letter
      (hread.readsBack_inCode hplain)
    have hletter : w.inCode.letter ≠ "N" := by
      rcases Word.isCommand_iff.1 hw with h | h <;> (rw [Word.inCode, h]; decide)
    refine ⟨[v], ?_, fun h => absurd h (List.cons_ne_nil _ _), ?_, ?_⟩
    · rw [hcode, modalCode, ← Word.render_inCode, hchars, Spelling.text, List.flatMap_singleton]
    · rw [List.map_singleton, hv]
      exact List.forall_mem_singleton.2 (Scan.numberOf?_of_letter hletter)
    · rw [List.map_singleton, hv]
      exact ofWords_cons_argumentWords hnodup hcommand (w := w.inCode) hw
        (w.code_inCode.trans hcode.symm)

/-- Without an integer under `N`, no argument is taken for a line number. -/
theorem numberOf?_argumentWords {c : Command} (hnodup : c.args.names.Nodup)
    (hnumber : ∀ n, c.args.get? "N" ≠ some (.int n)) :
    ∀ w ∈ c.argumentWords, Scan.numberOf? w = none := by
  intro w hw
  cases hn : Scan.numberOf? w with
  | none => rfl
  | some n =>
    obtain ⟨hletter, hvalue⟩ := numberOf?_eq_some.1 hn
    obtain ⟨⟨name, value⟩, he, rfl⟩ := List.mem_map.1 hw
    obtain rfl : name = "N" := hletter
    obtain rfl : value = .int n := hvalue
    exact absurd (Table.get?_of_mem hnodup he) (hnumber n)

/-- A command whose words were read, and are not written with an exponent, is read from its text.
It must have no line number among its arguments, and be more than nothing. -/
theorem parse_render_of_read {c : Command} (hnodup : c.args.names.Nodup)
    (hwords : ∀ w ∈ c.argumentWords, w.IsRead ∧ ¬ w.isCommand ∧ w.value.IsPlain)
    (hnumber : ∀ n, c.args.get? "N" ≠ some (.int n)) {head : Option Word}
    (hcode : c.code = modalCode head)
    (hhead : ∀ w ∈ head, w.IsRead ∧ w.isCommand = true ∧ w.value.IsPlainInCode)
    (hne : head = none → c.argumentWords ≠ []) (strict : Bool) (place : Option Int) :
    ∃ l, Line.parse strict c.render.toList place = .ok (some l) ∧ ofWords "" l.words = [c] := by
  obtain ⟨ws, hws, hrender⟩ := exists_spellings fun w hw =>
    ⟨(hwords w hw).1.wellFormed.letter, (hwords w hw).1.readsBack (hwords w hw).2.2⟩
  obtain ⟨vs, htext, hvs, hnumbers, hmeaning⟩ :=
    exists_head hnodup (fun w hw => (hwords w hw).2.1) hcode hhead hne
  have hspells : Line.Spells c.render.toList (vs ++ ws) := by
    rw [hrender, ← htext]
    exact Spelling.spells_append_spaced vs ws
  have hsome : vs ++ ws ≠ [] := by
    intro hnil
    obtain ⟨hvsnil, hwsnil⟩ := List.append_eq_nil_iff.1 hnil
    rw [hwsnil] at hws
    exact hvs hvsnil hws.symm
  have hall : ∀ w ∈ (vs ++ ws).map Spelling.word, Scan.numberOf? w = none := by
    rw [List.map_append, hws]
    intro w hw
    rcases List.mem_append.1 hw with hw | hw
    · exact hnumbers w hw
    · exact numberOf?_argumentWords hnodup hnumber w hw
  refine ⟨_, Line.parse_spelled hspells hsome strict place, ?_⟩
  rw [Line.spelled, Scan.takeNumber_of_none hall, List.map_append, hws]
  exact hmeaning

/-- Printed commands read back: the command that a group of a line resolves to, where the modal
command before it is that of an earlier command word or empty, is read from its text, if it has no
line number among its arguments and no double of it is written with an exponent. -/
theorem parse_render {text : List Char} {place : Option Int} {l : Line}
    (hparse : Line.parse false text place = .ok (some l)) {g : Group}
    (hg : g ∈ Group.partition l.words) {modal : Option Word}
    (hmodal : ∀ w ∈ modal, w.IsRead ∧ w.isCommand = true) {c : Command}
    (hc : g.resolve (modalCode modal) = c) (hnumber : ∀ n, c.args.get? "N" ≠ some (.int n))
    (hargs : ∀ e ∈ c.args.entries, e.2.IsPlain)
    (hcode : ∀ w ∈ g.codeWord modal, w.value.IsPlainInCode) (strict : Bool)
    (place' : Option Int) :
    ∃ l', Line.parse strict c.render.toList place' = .ok (some l') ∧
      ofWords "" l'.words = [c] := by
  have hwellFormed := Group.partition_wellFormed (Line.parse_wellFormed hparse).words g hg
  have hread : ∀ w ∈ g.words, w.IsRead := by
    refine fun w hw => ⟨text, place, l, hparse, ?_⟩
    rw [← Group.flatMap_words_partition l.words]
    exact List.mem_flatMap.2 ⟨g, hg, hw⟩
  have hwords : ∀ w ∈ c.argumentWords, w.IsRead ∧ ¬ w.isCommand ∧ w.value.IsPlain := by
    intro w hw
    have hmem := hw
    rw [← hc] at hmem
    obtain ⟨hmem, hcommand⟩ := Group.mem_argumentWords_resolve hwellFormed hmem
    obtain ⟨e, he, rfl⟩ := List.mem_map.1 hw
    exact ⟨hread _ hmem, hcommand, hargs e he⟩
  have hhead : ∀ w ∈ g.codeWord modal, w.IsRead ∧ w.isCommand = true ∧ w.value.IsPlainInCode := by
    intro w hw
    have hplain := hcode w hw
    rw [Group.codeWord] at hw
    split_ifs at hw with hleading
    · cases hw
      exact ⟨hread _ List.mem_cons_self, hleading, hplain⟩
    · exact ⟨(hmodal w hw).1, (hmodal w hw).2, hplain⟩
  have hne : g.codeWord modal = none → c.argumentWords ≠ [] := by
    intro hnone
    have hleading : ¬ g.leading.isCommand := by
      intro hleading
      rw [Group.codeWord, if_pos hleading] at hnone
      cases hnone
    exact hc ▸ Group.argumentWords_ne_nil hleading _
  exact parse_render_of_read (hc ▸ g.nodup_resolve _) hwords hnumber
    (by rw [← hc, g.code_resolve_modalCode]) hhead hne strict place'

/-- The double one half below zero. -/
def minusHalf : Binary64 := .finite true (Nat.pow 2 52) 1021

/-- A line without a code of its own, behind a line with one. -/
theorem parse_render_continued :
    let g : Group := ⟨⟨"X", .float minusHalf⟩, []⟩
    let c : Command := g.resolve "G1"
    c.render = "G1 X-0.5" ∧ ∃ l, Line.parse true c.render.toList none = .ok (some l) ∧
      ofWords "" l.words = [c] := by
  let w : Word := ⟨"G", .int 1⟩
  let l : Line := { text := "X-0.5", words := [⟨"X", .float minusHalf⟩] }
  have hmodal : Line.parse false ['G', '0', '1'] none =
      .ok (some { text := "G01", words := [w] }) := by decide +kernel
  have hparse : Line.parse false ['X', '-', '0', '.', '5'] none = .ok (some l) := by decide +kernel
  have hplain : minusHalf.IsPlain := ⟨_, rfl, .inr (by decide +kernel)⟩
  have hcommand : ∀ v ∈ some w, v.IsRead ∧ v.isCommand = true := by
    rintro _ ⟨⟩
    exact ⟨⟨_, _, _, hmodal, List.mem_singleton_self _⟩, rfl⟩
  refine ⟨by decide +kernel, parse_render hparse (List.mem_singleton_self _) hcommand rfl ?_ ?_ ?_
    true none⟩
  · exact nofun
  · intro e he
    obtain rfl := List.mem_singleton.1 he
    rintro _ ⟨⟩
    exact hplain
  · rintro _ ⟨⟩ _ ⟨⟩

end Command

end Gcode
