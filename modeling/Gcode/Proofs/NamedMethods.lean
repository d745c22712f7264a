import Gcode.Proofs.Agreement
import Gcode.Proofs.CommandTables
import Gcode.Proofs.Numerals
import Gcode.Proofs.Spelling

/-!
Methods that are named after codes. A method is entered under its name, but looked up by a code that
is written anew from the number of a word, and that begins with no zero to spare. So a line that
begins with the name of a method calls the method if its numeral begins with no zero to spare, and
calls nobody otherwise (`method_reached_by_name`).
-/

namespace Gcode

open Act
open Gcode.Class
open Gcode.Text

/-! ### One command on a line -/

/-- A line with one command word, which comes first, is one group. -/
theorem Group.partition_single (w : Word) {ws : List Word} (h : ∀ v ∈ ws, ¬ v.isCommand) :
    partition (w :: ws) = [⟨w, ws⟩] := by
  have hsplit : ∀ {ws : List Word}, (∀ v ∈ ws, ¬ v.isCommand) → ∀ w,
      split w ws = (⟨w, ws⟩, []) := by
    intro ws h
    induction ws with
    | nil => exact fun w => rfl
    | cons v ws ih =>
      intro w
      obtain ⟨hv, hws⟩ := List.forall_mem_cons.1 h
      rw [split, ih hws v]
      exact if_neg hv
  rw [partition, hsplit h w]

namespace Table

variable {α : Type}

theorem put_of_not_mem {es : List (String × α)} {name : String} (h : name ∉ es.map (·.1))
    (value : α) : put name value es = es ++ [(name, value)] := by
  induction es with
  | nil => rfl
  | cons e es ih =>
    rw [List.map_cons, List.mem_cons, not_or] at h
    rw [put, if_neg (Ne.symm h.1), ih h.2]
    rfl

/-- Settings of different names are kept as they are. -/
theorem entries_ofList {es : List (String × α)} (h : (es.map (·.1)).Nodup) :
    (ofList es).entries = es := by
  induction es using List.reverseRecOn with
  | nil => rfl
  | append_singleton es e ih =>
    rw [List.map_append, List.nodup_append] at h
    have hfresh : e.1 ∉ es.map (·.1) := fun hmem => h.2.2 _ hmem _ (List.mem_singleton_self _) rfl
    rw [ofList_append_singleton, set, ih h.1, put_of_not_mem hfresh]

end Table

namespace Spelling

/-- The letter that is meant. -/
def upper (w : Spelling) : String := String.singleton w.letter.toUpper

/-- The arguments that some words give, if each has a letter of its own. -/
def arguments (ws : List Spelling) : List (String × Value) :=
  ws.map fun w => (w.upper, Value.read w.value)

end Spelling

namespace Interpreter

variable {it : Interpreter} {m : Machine} {c : Command} {target : Option Method}

/-- Calls a method, or nobody. -/
def callTarget (it : Interpreter) (args : Args) : Option Method → Act (Nat × Args)
  | none => pure (0, args)
  | some f => do
    Act.enter (.method f args)
    let left ← it.host.method f args
    pure (1, left)

/-- Carries out a line of one command that leads to a method or to nobody, and reports the line. -/
def carriesOne (it : Interpreter) (callback : Option String) (l : Line) (c : Command)
    (target : Option Method) : Act (List Line) := do
  modify fun m => { m with modal := c.code }
  let _ ← it.callTarget c.args target
  it.lineDone callback l 0
  logLoaded 1
  pure [l]

/-- The method that a code leads to, if it leads anywhere. -/
def LeadsTo (it : Interpreter) (code : String) (target : Option Method) : Prop :=
  it.dialect.attribute? code = target.map fun f => (f.name, .method f)

theorem callMethod_target (h : it.LeadsTo c.code target) (m : Machine) :
    ∃ log, it.callMethod c.code c.args m = it.callTarget c.args target { m with log } := by
  rw [LeadsTo] at h
  cases target with
  | none => exact ⟨m.log, by rw [callMethod, h]; rfl⟩
  | some f => exact ⟨_, by rw [callMethod, h]; rfl⟩

theorem callTarget_count {f : Method} {args left : Args} {n : Nat} {m' : Machine}
    (h : it.callTarget args (some f) m = .ok (n, left) m') : n = 1 := by
  obtain ⟨_, _, -, h⟩ := bind_eq_ok h
  obtain ⟨_, _, -, h⟩ := bind_eq_ok h
  cases h
  rfl

/-- Without a handler, a command is dispatched to its method alone. -/
theorem dispatch_target (hcode : c.code ≠ "") (hhandler : m.handlerFor? c.code = none)
    (h : it.LeadsTo c.code target) :
    ∃ log, it.dispatch c m = it.callTarget c.args target { m with log } := by
  have hcall : it.callHandler c.code c.args m = .ok (0, c.args) m :=
    it.callHandler_none c.args hhandler
  obtain ⟨log, hmethod⟩ := callMethod_target h m
  rw [it.dispatchesTo_callMethod hcode c.args, bind_ok hcall]
  cases target with
  | none =>
    rw [bind_ok hmethod]
    exact ⟨_, rfl⟩
  | some f =>
    refine ⟨log, ?_⟩
    rw [← hmethod]
    rcases hresult : it.callMethod c.code c.args m with ⟨⟨n, left⟩, m'⟩ | ⟨e, m'⟩
    · obtain rfl : n = 1 := callTarget_count (hmethod ▸ hresult)
      rw [bind_ok hresult]
      rfl
    · rw [bind_error hresult]

/-- A line of one command is carried out as that command. -/
theorem interpret_target (hintact : it.Intact) {g : Group} {ws : List Word}
    (hws : Group.partition ws = [g]) (hc : g.resolve m.modal = c) (hcode : c.code ≠ "")
    (hhandler : m.handlerFor? c.code = none) (h : it.LeadsTo c.code target) :
    ∃ log, it.interpret ws m = (it.callTarget c.args target >>= fun called =>
      pure [{ c with args := called.2 }]) { m with modal := c.code, log } := by
  obtain ⟨log, hresolve⟩ := resolveGroup_eq g m
  rw [hc] at hresolve
  have hsame : Machine.handlerFor? { m with modal := c.code, log } c.code = none := hhandler
  obtain ⟨log', hdispatch⟩ := dispatch_target hcode hsame h
  refine ⟨log', ?_⟩
  rw [interpret, hintact.call_eq, hws, interpretGroups, bind_ok hresolve,
    bind_congr_left hdispatch]
  rfl

/-- A text that is read as one line of one command is loaded as that command. -/
theorem loadText_target (hintact : it.Intact) {s : List Char} {l : Line}
    (hl : (LineReader.program { strict := m.strict } s).1.lines = .ok [l]) {g : Group}
    (hws : Group.partition l.words = [g]) (hc : g.resolve m.modal = c) (hcode : c.code ≠ "")
    (hhandler : m.handlerFor? c.code = none) (h : it.LeadsTo c.code target)
    (callback : Option String) :
    ∃ log, it.loadText s callback m = it.carriesOne callback l c target { m with log } := by
  obtain ⟨log, hlines⟩ := linesOf_eq_ok hl m
  obtain ⟨log', hinterpret⟩ := interpret_target (m := { m with log }) hintact hws hc hcode
    hhandler h
  refine ⟨log', ?_⟩
  have hload : it.loadText s callback m =
      (it.runLines callback 0 [l] >>= fun _ => logLoaded 1 >>= fun _ => pure [l])
        { m with log } := by
    rw [loadText, hintact.call_eq, get_bind]
    exact bind_ok hlines _
  have hline : it.runLines callback 0 [l] { m with log } =
      (it.callTarget c.args target >>= fun _ => it.lineDone callback l 0)
        { m with modal := c.code, log := log' } := by
    rw [runLines, bind_congr_left hinterpret]
    simp only [bind_assoc, pure_bind, runLines, bind_pure_unit]
  rw [hload, bind_congr_left hline, bind_assoc]
  rfl

theorem contained_carriesOne (hit : it.Contained) (l : Line) (c : Command)
    (target : Option Method) : (it.carriesOne none l c target).Contained := by
  have hmodal : (modify fun m : Machine => { m with modal := c.code } : Act Unit).Contained := by
    refine contained_modify (fun m n h => ?_) fun _ => rfl
    show { m.core with modal := c.code } = { n.core with modal := c.code }
    rw [h]
  have hcall : (it.callTarget c.args target).Contained := by
    cases target with
    | none => exact contained_pure _
    | some f => exact (contained_enter _).bind fun _ => (hit.method f _).bind fun _ =>
        contained_pure _
  exact hmodal.bind fun _ => hcall.bind fun _ => (contained_pure _).bind fun _ =>
    (contained_logLoaded 1).bind fun _ => contained_pure _

/-- A text is loaded as one line of one command that leads to a method or to nobody: at once, from
wherever the text comes and whoever the line is reported to, and also piece by piece, if nobody
listens and host code is contained, with a fault of the method as it leaves what gives up its turn.
-/
structure LoadsOne (it : Interpreter) (s : List Char) (m : Machine) (l : Line) (c : Command)
    (target : Option Method) : Prop where
  atOnce : ∀ d callback, it.contents d = .ok s →
    ∃ log, it.loadAtOnce d callback m = it.carriesOne callback l c target { m with log }
  inPieces : it.Contained → it.Keeps (·.registry.Silent) → m.registry.Silent → m.queue = [] →
    ∀ e, encodingNamed it.encoding = .ok e →
    ∀ h src stream ps total, Handle.StandsFor m h src stream → stream.Yields it.chunkSize ps →
    documentOf { encoding := e } ps = s →
    ∃ enough, ∀ fuel, enough ≤ fuel →
      (it.readStream fuel h total).AgreesWith (it.carriesOne none l c target).leaving m

theorem loadsOne_of_line (hintact : it.Intact) {s : List Char} {l : Line}
    (hl : ∀ strict, (LineReader.program { strict } s).1.lines = .ok [l]) {g : Group}
    (hws : Group.partition l.words = [g]) (hc : g.resolve m.modal = c) (hcode : c.code ≠ "")
    (hhandler : m.handlerFor? c.code = none) (h : it.LeadsTo c.code target) :
    it.LoadsOne s m l c target := by
  have hload := loadText_target hintact (hl m.strict) hws hc hcode hhandler h
  constructor
  · intro d callback hd
    rw [loadAtOnce_eq_call hd, hintact.call_eq]
    exact hload callback
  · intro hit hkeeps hsilent hq e he h src stream ps total hh hyields hdocument
    refine ⟨(stream.left + 1) * stream.turnsPerRead, fun fuel hfuel => agreesWith_of_seen ?_⟩
    obtain ⟨log, hload⟩ := hload none
    rw [seen_readStream_silent hit hintact hkeeps he hq hsilent hh hyields hdocument
      ⟨_, hl m.strict⟩ total hfuel, seen_leaving (seen_congr hload)]
    exact seen_leaving ((contained_carriesOne hit l c target).seen_eq rfl)

end Interpreter

/-! ### The class behind a name -/

section Classes

variable {classes classes' : List Class} {spec : ClassSpec} {c k : Class} {it : Interpreter}
  {name : String} {tags : List String} {script : Option String}

/-- Whatever begins with a command letter is no name that an interpreter keeps for itself or that
belongs to the class alone. -/
theorem not_reserved {letter : Char} (hletter : letter = 'G' ∨ letter = 'M') {digits : List Char}
    (hname : name.toList = letter :: digits) :
    name ∉ Dialect.ownNames ∧ name ∉ Member.classNames := by
  have hreserved : ∀ n ∈ Dialect.ownNames ++ Member.classNames,
      n.toList.head? ≠ some 'G' ∧ n.toList.head? ≠ some 'M' := by
    decide
  have hboth : name ∉ Dialect.ownNames ++ Member.classNames := by
    intro hmem
    obtain ⟨hG, hM⟩ := hreserved name hmem
    rw [hname, List.head?_cons] at hG hM
    rcases hletter with rfl | rfl
    · exact hG rfl
    · exact hM rfl
  simpa [not_or] using hboth

/-- A method that is named after a code is entered in the table of its class. -/
theorem exists_entry (h : Hierarchy classes) (hdefine : define classes spec = .ok classes')
    (hlast : classes'.getLast? = some c) {table : Table String} (htable : c.commands = some table)
    (hmem : k ∈ along classes' c.order)
    (hdefines : k.members.get? name = some (.method tags script))
    (hregisters : Registers name name (.method tags script)) : ∃ n, table.get? name = some n := by
  obtain ⟨bases, made, hmakes, rfl⟩ := makes_of_define hdefine
  obtain rfl : settle classes made = c := by
    rw [List.getLast?_concat] at hlast
    exact Option.some.inj hlast
  obtain ⟨order, horder, hlt⟩ := hmakes.order_lt h.length_pos h.sound
  rw [settle_order, horder, along_new hlt] at hmem
  rw [settle_commands hmakes.commands_eq htable, exists_get?_commandTable, horder, along_new hlt]
  have hentry := Table.mem_of_get? hdefines
  rcases List.mem_cons.1 hmem with rfl | hmem
  · -- what a class keeps besides its members registers nothing
    rcases mem_settle hentry with hmade | hidle
    · exact ⟨made, List.mem_cons_self, _, hmade, hregisters⟩
    · exact absurd hregisters (hidle.not_registers _ _)
  · exact ⟨k, List.mem_cons_of_mem _ hmem, _, hentry, hregisters⟩

/-- In a class that registers one name, the code of that name leads to the method that the name
stands for, and no other code leads anywhere. -/
theorem leadsTo_named (h : Hierarchy classes) (hdefine : define classes spec = .ok classes')
    (hlast : classes'.getLast? = some c) {more : List Class}
    (hdialect : Dialect.ofClass (classes' ++ more) c = .ok it.dialect)
    (hcode : IsCodeName name) (hown : name ∉ Dialect.ownNames) (hclass : name ∉ Member.classNames)
    (hfirst : FirstDefines (along classes' c.order) name k (.method tags script))
    (honly : ∀ code n, it.dialect.table.get? code = some n → code = name ∧ n = name)
    (code : String) :
    it.LeadsTo code (if code = name then some ⟨k.name, name, script⟩ else none) := by
  have hclasses' := h.define hdefine
  have hc : c ∈ classes' := List.mem_of_getLast? hlast
  have hline : along (classes' ++ more) c.order = along classes' c.order :=
    along_append (hclasses'.sound c hc).order_lt more
  obtain ⟨hmem, hdefines⟩ : k ∈ along classes' c.order ∧
      k.members.get? name = some (.method tags script) := by
    obtain ⟨before, after, heq, -, hdefines⟩ := hfirst
    exact ⟨by simp [heq], hdefines⟩
  have hregisters : Registers name name (.method tags script) :=
    ⟨callable_method hclass tags script, .inl ⟨hcode, rfl⟩⟩
  have hattribute : it.dialect.attributes.get? name = some (.method ⟨k.name, name, script⟩) := by
    have hnodup : ∀ j ∈ along (classes' ++ more) c.order, j.members.names.Nodup := by
      rw [hline]
      exact fun j hj => (hclasses'.sound j (mem_of_mem_along hj)).nodup
    obtain ⟨j, f, hfirst', hget⟩ := Dialect.exists_firstDefines hdialect hnodup hown
      ⟨k, hline ▸ hmem, by rw [hdefines]; rfl⟩
    rw [hline] at hfirst'
    have hsame :=
      (firstDefinition?_eq_some.2 hfirst').symm.trans (firstDefinition?_eq_some.2 hfirst)
    cases hsame
    exact hget
  rw [Interpreter.LeadsTo, Dialect.attribute?]
  by_cases hname : code = name
  · subst hname
    obtain ⟨n, hn⟩ := exists_entry h hdefine hlast (Dialect.of_ofClass hdialect).1 hmem hdefines
      hregisters
    obtain ⟨-, rfl⟩ := honly _ _ hn
    rw [hn, if_pos rfl, Option.bind_some, hattribute]
    rfl
  · have hnone : it.dialect.table.get? code = none := by
      cases hget : it.dialect.table.get? code with
      | none => rfl
      | some n => exact absurd (honly _ _ hget).1 hname
    rw [hnone, if_neg hname]
    rfl

end Classes

/-! ### Lines that begin with a name -/

theorem Scan.numberOf?_of_letter {w : Word} (h : w.letter ≠ "N") : numberOf? w = none := by
  cases hnumber : numberOf? w with
  | none => rfl
  | some n => exact absurd (numberOf?_eq_some.1 hnumber).1 h

theorem Scan.takeNumber_of_none {ws : List Word} (h : ∀ w ∈ ws, numberOf? w = none) :
    takeNumber ws = (none, ws) := by
  induction ws with
  | nil => rfl
  | cons w ws ih =>
    obtain ⟨hw, hws⟩ := List.forall_mem_cons.1 h
    rw [takeNumber, hw, ih hws]

/-- The name of a method: a command letter, and digits behind it. -/
structure IsMethodName (name : String) (digits : List Char) : Prop where
  toList : ∃ letter, (letter = 'G' ∨ letter = 'M') ∧ name.toList = letter :: digits
  ne_nil : digits ≠ []
  isDigit : ∀ c ∈ digits, c.isDigit = true
  length : digits.length ≤ 4300

namespace IsMethodName

variable {name : String} {digits : List Char}

theorem isCodeName (h : IsMethodName name digits) : IsCodeName name := by
  obtain ⟨letter, hletter, hname⟩ := h.toList
  exact ⟨letter, digits, hletter, h.ne_nil, fun c hc => isDecimalDigit_of_isDigit (h.isDigit c hc),
    .inl hname⟩

/-- A word that is written like the name of a method is a command, and its code is the name exactly
if the numeral begins with no zero to spare. -/
theorem word_code (h : IsMethodName name digits) {first : Spelling}
    (hfirst : first.chars = name.toList) : first.word.isCommand = true ∧ first.word.code ≠ "" ∧
      first.word.letter ≠ "N" ∧ (first.word.code = name ↔ IsTrimmed digits) := by
  have hletters : ∀ c : Char, c = 'G' ∨ c = 'M' →
      (String.singleton c = "G" ∨ String.singleton c = "M") ∧ String.singleton c ≠ "N" := by
    rintro c (rfl | rfl) <;> decide
  obtain ⟨letter, hletter, hname⟩ := h.toList
  obtain ⟨rfl, rfl⟩ : first.letter = letter ∧ first.value = digits := by
    rw [hname] at hfirst
    exact List.cons.inj hfirst
  have hupper : first.letter.toUpper = first.letter := by
    rcases hletter with h | h <;> (rw [h]; rfl)
  have hword : first.word = ⟨String.singleton first.letter,
      .int (Nat.ofDigitChars 10 first.value 0)⟩ := by
    rw [Spelling.word, hupper, Value.read_plain h.ne_nil h.isDigit h.length]
  have hcode : first.word.code.toList =
      first.letter :: Nat.toDigits 10 (Nat.ofDigitChars 10 first.value 0) := by
    rw [hword, Word.code]
    simp [Value.inCode, Value.render, Integer.render]
  refine ⟨?_, ?_, ?_, ?_⟩
  · rw [hword, Word.isCommand_iff]
    exact (hletters _ hletter).1
  · intro hempty
    rw [hempty] at hcode
    cases hcode
  · rw [hword]
    exact (hletters _ hletter).2
  · rw [← String.toList_inj, hcode, hname, List.cons.injEq,
      and_iff_right rfl, toDigits_ofDigitChars_iff h.ne_nil h.isDigit]

end IsMethodName

/-- A class has a method whose name is a code, and registers nothing else; nobody else handles any
code. Then a line of that name and of arguments with letters of their own calls the method once,
with just these arguments, if the numeral in the name begins with no zero to spare, and calls nobody
otherwise, because the code of the line is another one then. This holds however the line is spaced,
read strictly or leniently, and loaded, and whatever the method does. -/
theorem method_reached_by_name {classes classes' : List Class} (h : Hierarchy classes)
    {spec : ClassSpec} (hdefine : define classes spec = .ok classes') {c : Class}
    (hlast : classes'.getLast? = some c) {more : List Class} {it : Interpreter}
    (hdialect : Dialect.ofClass (classes' ++ more) c = .ok it.dialect) (hintact : it.Intact)
    {name : String} {digits : List Char} (hname : IsMethodName name digits) {k : Class}
    {tags : List String} {script : Option String}
    (hfirst : FirstDefines (along classes' c.order) name k (.method tags script))
    (honly : ∀ code n, it.dialect.table.get? code = some n → code = name ∧ n = name)
    {first : Spelling} (hspelled : first.chars = name.toList) {ws : List Spelling}
    (hplain : ∀ w ∈ ws, w.upper ∉ ["G", "M", "N"]) (hdistinct : (ws.map Spelling.upper).Nodup)
    {s : List Char} (hs : Line.Spells s (first :: ws)) (m : Machine)
    (hhandlers : ∀ code, m.handlerFor? code = none) :
    ∃ l cmd, cmd.args.entries = Spelling.arguments ws ∧
      (IsTrimmed digits → cmd.code = name ∧
        it.LoadsOne s m l cmd (some ⟨k.name, name, script⟩)) ∧
      (¬ IsTrimmed digits → cmd.code ≠ name ∧ it.LoadsOne s m l cmd none) := by
  obtain ⟨hcommand, hcode, hletter, hiff⟩ := hname.word_code hspelled
  have hletters : ∀ w ∈ ws.map Spelling.word, w.letter ∉ ["G", "M", "N"] := by
    intro w hw
    obtain ⟨v, hv, rfl⟩ := List.mem_map.1 hw
    exact hplain v hv
  have hwords : (Line.spelled s (first :: ws) (some 1)).words =
      first.word :: ws.map Spelling.word := by
    rw [Line.spelled, Scan.takeNumber_of_none]
    · rfl
    · rw [List.map_cons, List.forall_mem_cons]
      exact ⟨Scan.numberOf?_of_letter hletter, fun w hw =>
        Scan.numberOf?_of_letter fun hN => hletters w hw (by simp [hN])⟩
  have hpartition : Group.partition (Line.spelled s (first :: ws) (some 1)).words =
      [⟨first.word, ws.map Spelling.word⟩] := by
    rw [hwords]
    refine Group.partition_single _ fun w hw hc => hletters w hw ?_
    rcases Word.isCommand_iff.1 hc with h | h <;> simp [h]
  have hresolve : Group.resolve ⟨first.word, ws.map Spelling.word⟩ m.modal =
      ⟨first.word.code, Args.ofWords (ws.map Spelling.word)⟩ := if_pos hcommand
  obtain ⟨hown, hclass⟩ : name ∉ Dialect.ownNames ∧ name ∉ Member.classNames := by
    obtain ⟨letter, hletter, hlist⟩ := hname.toList
    exact not_reserved hletter hlist
  have hloads := Interpreter.loadsOne_of_line hintact
    (fun strict => LineReader.program_spelled hs (List.cons_ne_nil _ _) strict) hpartition hresolve
    hcode (hhandlers _) (leadsTo_named h hdefine hlast hdialect hname.isCodeName hown hclass
      hfirst honly first.word.code)
  refine ⟨Line.spelled s (first :: ws) (some 1),
    ⟨first.word.code, Args.ofWords (ws.map Spelling.word)⟩, ?_, fun htrimmed => ?_,
    fun hpadded => ?_⟩
  · show (Table.ofList _).entries = _
    rw [List.map_map, Table.entries_ofList]
    · rfl
    · rwa [List.map_map]
  · have heq := hiff.2 htrimmed
    rw [if_pos heq] at hloads
    exact ⟨heq, hloads⟩
  · have hne := fun heq => hpadded (hiff.1 heq)
    rw [if_neg hne] at hloads
    exact ⟨hne, hloads⟩

/-- A class with one method. -/
def runner (name : String) : ClassSpec where
  name := "Runner"
  bases := [Operation.interpreterName]
  members := [⟨name, .method [] none⟩]

/-- Such a class registers the name of its method and nothing else. -/
theorem exists_runner (name : String) (hname : name ∈ ["G1", "G01"]) :
    ∃ classes c d k, define initial (runner name) = .ok classes ∧ classes.getLast? = some c ∧
      Dialect.ofClass (classes ++ []) c = .ok d ∧
      FirstDefines (along classes c.order) name k (.method [] none) ∧ k.name = "Runner" ∧
      d.table = ⟨[(name, name)]⟩ ∧ ∀ op, d.obstacle? op = none := by
  have hmade : ∀ name ∈ ["G1", "G01"],
      ((define initial (runner name)).toOption.bind fun classes =>
        classes.getLast?.bind fun c => (Dialect.ofClass (classes ++ []) c).toOption.map fun d =>
          ((firstDefinition? (along classes c.order) name).map fun p => (p.1.name, p.2), d.table,
            Operation.all.all fun op => (d.obstacle? op).isNone)) =
      some (some ("Runner", .method [] none), ⟨[(name, name)]⟩, true) := by
    simp only [runner, define, String.contains_char_eq]
    decide +kernel
  obtain ⟨classes, hdefine, hmade⟩ := Option.bind_eq_some_iff.1 (hmade name hname)
  obtain ⟨c, hlast, hmade⟩ := Option.bind_eq_some_iff.1 hmade
  obtain ⟨d, hdialect, hmade⟩ := Option.map_eq_some_iff.1 hmade
  obtain ⟨hfirst, hrest⟩ := Prod.mk.inj hmade
  obtain ⟨htable, hfree⟩ := Prod.mk.inj hrest
  obtain ⟨⟨k, member⟩, hfirst, hk⟩ := Option.map_eq_some_iff.1 hfirst
  obtain ⟨hk, rfl⟩ := Prod.mk.inj hk
  refine ⟨classes, c, d, k, ok_of_toOption hdefine, hlast, ok_of_toOption hdialect,
    firstDefinition?_eq_some.1 hfirst, hk, htable, fun op => ?_⟩
  exact Option.isNone_iff_eq_none.1 (List.all_eq_true.1 hfree op op.mem_all)

/-- The method that is named after a code is called by the line of its name. -/
theorem method_reached_by_name_runner :
    ∃ classes c, ∃ it : Interpreter, define initial (runner "G1") = .ok classes ∧
      classes.getLast? = some c ∧ Dialect.ofClass classes c = .ok it.dialect ∧
      ∃ l m, it.loadString (.text "G1 x5") none {} = .ok [l] m ∧
        m.journal = [.method ⟨"Runner", "G1", none⟩ ⟨[("X", .int 5)]⟩] := by
  obtain ⟨classes, c, d, k, hdefine, hlast, hdialect, hfirst, hk, htable, hintact⟩ :=
    exists_runner "G1" (by decide)
  let it : Interpreter := { dialect := d, host := Host.silent }
  have hdialect' : Dialect.ofClass (classes ++ []) c = .ok it.dialect := hdialect
  have hintact' : it.Intact := hintact
  have honly : ∀ code n, it.dialect.table.get? code = some n → code = "G1" ∧ n = "G1" := by
    intro code n hget
    have hmem : (code, n) ∈ d.table.entries := Table.mem_of_get? hget
    simpa [htable] using hmem
  have hname : IsMethodName "G1" ['1'] :=
    ⟨⟨'G', .inl rfl, rfl⟩, by decide, List.forall_mem_singleton.2 rfl, by simp⟩
  let first : Spelling := ⟨'G', ['1'], rfl, by decide, List.forall_mem_singleton.2 rfl⟩
  let w : Spelling := ⟨'x', ['5'], rfl, by decide, List.forall_mem_singleton.2 rfl⟩
  have hfirst' : first.chars = "G1".toList := rfl
  have hs : Line.Spells "G1 x5".toList [first, w] := ⟨by decide, by decide, by decide⟩
  obtain ⟨l, cmd, hargs, htrimmed, -⟩ := method_reached_by_name Hierarchy.initial hdefine hlast
    hdialect' hintact' hname hfirst honly hfirst' (by decide) (by decide) hs {} fun _ => rfl
  obtain ⟨hcode, hloads⟩ := htrimmed (by decide)
  obtain ⟨log, hload⟩ := hloads.atOnce (.text (.text "G1 x5")) none rfl
  rw [List.append_nil] at hdialect
  refine ⟨classes, c, it, hdefine, hlast, hdialect, l, _, hload, ?_⟩
  have hentries : cmd.args.entries = [("X", .int 5)] := hargs.trans (by decide +kernel)
  show [Entry.method ⟨k.name, "G1", none⟩ cmd.args] = _
  rw [hk, ← hentries]

/-- The method `G01` is entered under its name, but the line of its name calls nobody: the code of
the line is `G1`. -/
theorem method_not_reached :
    ∃ classes c d, define initial (runner "G01") = .ok classes ∧ classes.getLast? = some c ∧
      Dialect.ofClass classes c = .ok d ∧ d.table = ⟨[("G01", "G01")]⟩ ∧
      ∀ host, ∃ l m, Interpreter.loadString { dialect := d, host } (.text "G01 X1") none {} =
        .ok [l] m ∧ m.modal = "G1" ∧ m.journal = [] := by
  obtain ⟨classes, c, d, k, hdefine, hlast, hdialect, hfirst, hk, htable, hintact⟩ :=
    exists_runner "G01" (by decide)
  rw [List.append_nil] at hdialect
  refine ⟨classes, c, d, hdefine, hlast, hdialect, htable, fun host => ?_⟩
  let it : Interpreter := { dialect := d, host }
  have hleads : it.LeadsTo "G1" none := by
    rw [Interpreter.LeadsTo, Dialect.attribute?, htable]
    rfl
  let ws : List Spelling := [⟨'G', ['0', '1'], rfl, by decide, by simp [Scan.isValueChar]⟩,
    ⟨'X', ['1'], rfl, by decide, List.forall_mem_singleton.2 rfl⟩]
  have hs : Line.Spells "G01 X1".toList ws := ⟨by decide, by decide, by decide⟩
  have hintact' : it.Intact := hintact
  have hloads := Interpreter.loadsOne_of_line (m := {}) (c := ⟨"G1", ⟨[("X", .int 1)]⟩⟩) hintact'
    (fun strict => LineReader.program_spelled hs (List.cons_ne_nil _ _) strict)
    (g := ⟨⟨"G", .int 1⟩, [⟨"X", .int 1⟩]⟩) (by decide +kernel) (by decide +kernel) (by decide) rfl
    hleads
  obtain ⟨log, hload⟩ := hloads.atOnce (.text (.text "G01 X1")) none rfl
  exact ⟨_, _, hload, rfl, rfl⟩

end Gcode
