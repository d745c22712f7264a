import Gcode.Proofs.Lineage
import Gcode.Proofs.Recording

/-!
Which method a code reaches. The command table of a class is filled from the last class behind it to
the class itself, every class writing over those behind it; the method itself is looked up again by
its name when a command is dispatched. Here both are said of the order of classes alone: an entry
comes from the last member that registers the code in the first class that has one, and dispatch
leads to what an instance finds by the first definition of the name that is entered, be it a method
that registers nothing or nothing that can be called (`commandTable_reaches`). Whether the
definition can be called as it stands does not matter for that (`commandTable_reaches_uncallable`).
-/

namespace Gcode

open Act
open Gcode.Text

/-- Names that are set to the same value have it, and the others what they had. -/
theorem Table.get?_foldl_set {α : Type} (names : List String) (value : α) (t : Table α)
    (name : String) : (names.foldl (fun t n => t.set n value) t).get? name =
      if name ∈ names then some value else t.get? name := by
  induction names using List.reverseRecOn with
  | nil => simp
  | append_singleton names n ih =>
    rw [List.foldl_append, List.foldl_cons, List.foldl_nil, Table.get?_set, ih]
    by_cases hn : n = name
    · simp [hn]
    · simp [hn, Ne.symm hn]

namespace Class

/-! ### Registering -/

/-- A name that is a command code: `G` or `M` and digits. A line break may stand at the end. -/
def IsCodeName (name : String) : Prop :=
  ∃ c digits, (c = 'G' ∨ c = 'M') ∧ digits ≠ [] ∧ (∀ d ∈ digits, isDecimalDigit d = true) ∧
    (name.toList = c :: digits ∨ name.toList = c :: (digits ++ ['\n']))

theorem isCodeName_iff (name : String) : isCodeName name = true ↔ IsCodeName name := by
  rw [isCodeName, IsCodeName]
  cases hname : name.toList with
  | nil => simp
  | cons c s =>
    simp only [Bool.and_eq_true, Bool.or_eq_true, beq_iff_eq, Bool.not_eq_true',
      List.isEmpty_eq_false_iff, List.all_eq_true]
    constructor
    · rintro ⟨⟨hc, hne⟩, hall⟩
      by_cases hbreak : s.getLast? = some '\n'
      · rw [if_pos hbreak] at hne hall
        refine ⟨c, s.dropLast, hc, hne, hall, .inr ?_⟩
        rw [List.dropLast_append_getLast? _ hbreak]
      · rw [if_neg hbreak] at hne hall
        exact ⟨c, s, hc, hne, hall, .inl rfl⟩
    · rintro ⟨c', digits, hc, hne, hall, heq | heq⟩
      · cases heq
        have hbreak : s.getLast? ≠ some '\n' := by
          intro hbreak
          have hdigit := hall _ (List.mem_of_getLast? hbreak)
          revert hdigit
          decide
        rw [if_neg hbreak]
        exact ⟨⟨hc, hne⟩, hall⟩
      · cases heq
        rw [if_pos List.getLast?_concat, List.dropLast_concat]
        exact ⟨⟨hc, hne⟩, hall⟩

/-- A member that registers a code: it can be called, and has the code for its name or for a tag. -/
def Registers (code name : String) (m : Member) : Prop :=
  m.callable name = true ∧ (IsCodeName name ∧ code = name ∨ code ∈ m.tags name)

theorem Idle.not_registers {m : Member} (h : Idle m) (code name : String) :
    ¬ Registers code name m := fun hregisters =>
  Bool.false_ne_true ((h name).symm.trans hregisters.1)

theorem mem_codesOf {code name : String} {m : Member} :
    code ∈ codesOf name m ↔ Registers code name m := by
  rw [codesOf, Registers, ← isCodeName_iff]
  cases m.callable name
  · simp
  · by_cases hcode : isCodeName name = true <;> simp [hcode]

/-- The member of a class that registers a code last. -/
def lastNamed? (code : String) (c : Class) : Option String :=
  (c.members.entries.reverse.find? fun e => (codesOf e.1 e.2).contains code).map (·.1)

theorem get?_enter (table : Table String) (c : Class) (code : String) :
    (enter table c).get? code = (lastNamed? code c).or (table.get? code) := by
  rw [enter, lastNamed?]
  generalize c.members.entries = es
  induction es using List.reverseRecOn with
  | nil => rfl
  | append_singleton es e ih =>
    rw [List.foldl_append, List.foldl_cons, List.foldl_nil, Table.get?_foldl_set, ih,
      List.reverse_concat, List.find?_cons]
    by_cases he : code ∈ codesOf e.1 e.2
    · simp [he]
    · simp [he]

/-! ### Tables -/

/-- The classes of an order. -/
def along (classes : List Class) (order : List Nat) : List Class := order.filterMap (classes[·]?)

theorem mem_of_mem_along {classes : List Class} {order : List Nat} {c : Class}
    (h : c ∈ along classes order) : c ∈ classes := by
  obtain ⟨i, -, hi⟩ := List.mem_filterMap.1 h
  exact List.mem_of_getElem? hi

/-- Classes that are defined later make no difference. -/
theorem along_append {classes : List Class} {order : List Nat}
    (h : ∀ i ∈ order, i < classes.length) (more : List Class) :
    along (classes ++ more) order = along classes order :=
  List.filterMap_congr fun i hi => List.getElem?_append_left (h i hi)

/-- The line of a new class begins with the class itself. -/
theorem along_new {classes : List Class} {order : List Nat} (h : ∀ i ∈ order, i < classes.length)
    (c : Class) : along (classes ++ [c]) (classes.length :: order) = c :: along classes order := by
  have hself : (classes ++ [c])[classes.length]? = some c := by simp
  rw [along, List.filterMap_cons_some hself]
  exact congrArg (c :: ·) (along_append h [c])

theorem ancestry_eq (classes : List Class) (c : Class) :
    ancestry classes c = (along classes c.order).reverse := by
  rw [ancestry, along, List.filterMap_reverse]

theorem get?_commandTable (classes : List Class) (c : Class) (code : String) :
    (commandTable classes c).get? code = (along classes c.order).findSome? (lastNamed? code) := by
  rw [commandTable, ancestry_eq, List.foldl_reverse]
  induction along classes c.order with
  | nil => rfl
  | cons k line ih =>
    rw [List.foldr_cons, get?_enter, ih, List.findSome?_cons]
    cases lastNamed? code k <;> rfl

/-- A name that a code is entered under: that of the last member that registers it in the first
class of a line that has one. -/
def Entered (line : List Class) (code name : String) : Prop :=
  ∃ before c after, line = before ++ c :: after ∧
    (∀ c' ∈ before, ∀ e ∈ c'.members.entries, ¬ Registers code e.1 e.2) ∧
    ∃ front m back, c.members.entries = front ++ (name, m) :: back ∧ Registers code name m ∧
      ∀ e ∈ back, ¬ Registers code e.1 e.2

theorem lastNamed?_eq_none {code : String} {c : Class} :
    lastNamed? code c = none ↔ ∀ e ∈ c.members.entries, ¬ Registers code e.1 e.2 := by
  rw [lastNamed?, Option.map_eq_none_iff, List.find?_eq_none]
  simp [mem_codesOf]

theorem lastNamed?_eq_some {code name : String} {c : Class} : lastNamed? code c = some name ↔
    ∃ front m back, c.members.entries = front ++ (name, m) :: back ∧ Registers code name m ∧
      ∀ e ∈ back, ¬ Registers code e.1 e.2 := by
  rw [lastNamed?, Option.map_eq_some_iff]
  constructor
  · rintro ⟨⟨_, m⟩, hfind, rfl⟩
    obtain ⟨hm, after, before, hentries, hafter⟩ := List.find?_eq_some_iff_append.1 hfind
    refine ⟨before.reverse, m, after.reverse, ?_, by simpa [mem_codesOf] using hm, ?_⟩
    · rw [← List.reverse_reverse c.members.entries, hentries]
      simp
    · intro e he
      simpa [mem_codesOf] using hafter e (List.mem_reverse.1 he)
  · rintro ⟨front, m, back, hentries, hm, hback⟩
    refine ⟨(name, m), List.find?_eq_some_iff_append.2 ⟨by simpa [mem_codesOf] using hm, ?_⟩, rfl⟩
    refine ⟨back.reverse, front.reverse, by simp [hentries], fun e he => ?_⟩
    simpa [mem_codesOf] using hback e (List.mem_reverse.1 he)

theorem get?_commandTable_eq_some (classes : List Class) (c : Class) (code name : String) :
    (commandTable classes c).get? code = some name ↔
      Entered (along classes c.order) code name := by
  rw [get?_commandTable, List.findSome?_eq_some_iff, Entered]
  simp only [lastNamed?_eq_none, lastNamed?_eq_some]
  constructor
  · rintro ⟨before, k, after, hline, hk, hbefore⟩
    exact ⟨before, k, after, hline, hbefore, hk⟩
  · rintro ⟨before, k, after, hline, hbefore, hk⟩
    exact ⟨before, k, after, hline, hk, hbefore⟩

/-- A table has a code exactly if a member of a class in the line registers it. -/
theorem exists_get?_commandTable (classes : List Class) (c : Class) (code : String) :
    (∃ name, (commandTable classes c).get? code = some name) ↔
      ∃ k ∈ along classes c.order, ∃ e ∈ k.members.entries, Registers code e.1 e.2 := by
  rw [← Option.isSome_iff_exists, get?_commandTable, List.findSome?_isSome_iff]
  refine exists_congr fun k => and_congr_right fun _ => ?_
  rw [← not_iff_not, Option.not_isSome_iff_eq_none, lastNamed?_eq_none]
  simp only [not_exists, not_and]

/-! ### First definitions -/

/-- The first definition of a name in a line of classes. -/
def FirstDefines (line : List Class) (name : String) (c : Class) (m : Member) : Prop :=
  ∃ before after, line = before ++ c :: after ∧
    (∀ c' ∈ before, c'.members.get? name = none) ∧ c.members.get? name = some m

/-- The first definition of a name in a line of classes, with its class. -/
def firstDefinition? (line : List Class) (name : String) : Option (Class × Member) :=
  line.findSome? fun c => (c.members.get? name).map (c, ·)

theorem firstDefinition?_eq_some {line : List Class} {name : String} {c : Class} {m : Member} :
    firstDefinition? line name = some (c, m) ↔ FirstDefines line name c m := by
  rw [firstDefinition?, List.findSome?_eq_some_iff, FirstDefines]
  simp only [Option.map_eq_none_iff, Option.map_eq_some_iff, Prod.mk.injEq]
  constructor
  · rintro ⟨before, k, after, hline, ⟨m', hm, rfl, rfl⟩, hbefore⟩
    exact ⟨before, after, hline, hbefore, hm⟩
  · rintro ⟨before, after, hline, hbefore, hm⟩
    exact ⟨before, c, after, hline, ⟨m, hm, rfl, rfl⟩, hbefore⟩

theorem isSome_firstDefinition? {line : List Class} {name : String} :
    (firstDefinition? line name).isSome ↔ ∃ k ∈ line, (k.members.get? name).isSome := by
  simp [firstDefinition?, List.findSome?_isSome_iff]

/-! ### Tags -/

theorem upperChar_ne_nil (c : Char) : upperChar c ≠ [] := by
  have hexpansions : ∀ e ∈ upperExpansions, e.2 ≠ [] := by decide
  rw [upperChar]
  split
  · rename_i ns hlookup
    obtain ⟨before, after, heq, -⟩ := List.lookup_eq_some_iff.1 hlookup
    have hne := hexpansions (c.toNat, ns) (by simp [heq])
    simpa using hne
  · split
    · exact List.cons_ne_nil _ _
    · exact List.cons_ne_nil _ _

theorem readCode_eq_ok {x : Literal} {code : String} (h : readCode x = .ok code) :
    ∃ s, x = .text s ∧ code = upper s := by
  cases x with
  | text s =>
    rw [readCode] at h
    split at h
    · cases h
    · cases h
      exact ⟨s, rfl, rfl⟩
  | _ => cases h

theorem readCode_ne_empty {x : Literal} {code : String} (h : readCode x = .ok code) :
    code ≠ "" := by
  obtain ⟨s, rfl, rfl⟩ := readCode_eq_ok h
  rw [readCode] at h
  split at h
  · cases h
  · rename_i hempty
    cases hs : s.toList with
    | nil => exact absurd (by simpa using hs) hempty
    | cons c cs =>
      intro hupper
      have hnil := congrArg String.toList hupper
      rw [upper, String.toList_ofList, hs, List.flatMap_cons] at hnil
      exact upperChar_ne_nil c (List.append_eq_nil_iff.1 hnil).1

theorem readTag_eq_ok {tag : List Literal} {codes : List String} (h : readTag tag = .ok codes) :
    tag.mapM readCode = .ok codes := by
  rw [readTag] at h
  split at h
  · cases h
  · exact h

/-- The codes of a tag are texts, taken in upper case. -/
theorem mem_readTag {tag : List Literal} {codes : List String} (h : readTag tag = .ok codes)
    (code : String) : code ∈ codes ↔ ∃ s, Literal.text s ∈ tag ∧ code = upper s := by
  constructor
  · intro hmem
    obtain ⟨x, hx, hread⟩ := mem_of_mapM (readTag_eq_ok h) code hmem
    obtain ⟨s, rfl, hs⟩ := readCode_eq_ok hread
    exact ⟨s, hx, hs⟩
  · rintro ⟨s, hs, rfl⟩
    obtain ⟨y, hy, hread⟩ := exists_of_mapM (readTag_eq_ok h) _ hs
    obtain ⟨s', hs', rfl⟩ := readCode_eq_ok hread
    cases hs'
    exact hy

/-- The codes of some tags. -/
theorem mem_flatten_tags {tags : List (List Literal)} {codes : List (List String)}
    (h : tags.mapM readTag = .ok codes) (code : String) : code ∈ codes.flatten ↔
      ∃ tag ∈ tags, ∃ s, Literal.text s ∈ tag ∧ code = upper s := by
  rw [List.mem_flatten]
  constructor
  · rintro ⟨l, hl, hcode⟩
    obtain ⟨tag, htag, hread⟩ := mem_of_mapM h l hl
    exact ⟨tag, htag, (mem_readTag hread code).1 hcode⟩
  · rintro ⟨tag, htag, hcode⟩
    obtain ⟨l, hl, hread⟩ := exists_of_mapM h tag htag
    exact ⟨l, hl, (mem_readTag hread code).2 hcode⟩

theorem flatten_tags_ne_empty {tags : List (List Literal)} {codes : List (List String)}
    (h : tags.mapM readTag = .ok codes) : ∀ code ∈ codes.flatten, code ≠ "" := by
  intro code hcode
  obtain ⟨l, hl, hcode⟩ := List.mem_flatten.1 hcode
  obtain ⟨tag, -, hread⟩ := mem_of_mapM h l hl
  obtain ⟨x, -, hread⟩ := mem_of_mapM (readTag_eq_ok hread) code hcode
  exact readCode_ne_empty hread

/-- A method keeps the codes that it is tagged with. -/
theorem readMember_method {spec : MemberSpec} {e : String × Member} (h : readMember spec = .ok e)
    {tags : List (List Literal)} {script : Option String}
    (hbody : spec.body = .method tags script) :
    ∃ codes, tags.mapM readTag = .ok codes ∧ e = (spec.name, .method codes.flatten script) := by
  rw [readMember, hbody] at h
  dsimp only at h
  split at h
  · cases h
  · rename_i codes hcodes
    cases h
    exact ⟨codes, hcodes, rfl⟩

/-- So does a descriptor. -/
theorem readMember_descriptor {spec : MemberSpec} {e : String × Member}
    (h : readMember spec = .ok e) {d : Descriptor} {tags : List (List Literal)}
    (hbody : spec.body = .descriptor d tags) :
    ∃ codes, tags.mapM readTag = .ok codes ∧ e = (spec.name, .descriptor d codes.flatten) := by
  rw [readMember, hbody] at h
  dsimp only at h
  split at h
  · cases h
  · rename_i codes hcodes
    cases h
    exact ⟨codes, hcodes, rfl⟩

theorem callable_method {name : String} (h : name ∉ Member.classNames) (codes : List String)
    (script : Option String) : (Member.method codes script).callable name = true := by
  have hclass : name ∉ Member.classMethodNames := fun hmem => h (List.mem_cons_of_mem _ hmem)
  simp [Member.callable, hclass]

theorem not_isCodeName {name : String} (h : name ∈ Member.classNames) : ¬ IsCodeName name := by
  have hnames : ∀ n ∈ Member.classNames, isCodeName n = false := by decide
  rw [← isCodeName_iff, hnames name h]
  exact Bool.false_ne_true

/-- What a method is tagged with is taken in upper case. -/
theorem registers_method {spec : MemberSpec} {e : String × Member} (h : readMember spec = .ok e)
    {tags : List (List Literal)} {script : Option String} (hbody : spec.body = .method tags script)
    (code : String) : Registers code e.1 e.2 ↔
      spec.name ∉ Member.classNames ∧ (IsCodeName spec.name ∧ code = spec.name ∨
        ∃ tag ∈ tags, ∃ s, Literal.text s ∈ tag ∧ code = upper s) := by
  obtain ⟨codes, hcodes, rfl⟩ := readMember_method h hbody
  rw [← mem_flatten_tags hcodes, Registers, Member.tags]
  by_cases hname : spec.name ∈ Member.classNames
  · simp [hname, not_isCodeName hname]
  · simp [hname, callable_method hname]

/-- So is what a descriptor is tagged with, if it can be called as it stands. -/
theorem registers_descriptor {spec : MemberSpec} {e : String × Member}
    (h : readMember spec = .ok e) {d : Descriptor} {tags : List (List Literal)}
    (hbody : spec.body = .descriptor d tags) (code : String) : Registers code e.1 e.2 ↔
      d.callable = true ∧ (IsCodeName spec.name ∧ code = spec.name ∨
        ∃ tag ∈ tags, ∃ s, Literal.text s ∈ tag ∧ code = upper s) := by
  obtain ⟨codes, hcodes, rfl⟩ := readMember_descriptor h hbody
  rw [← mem_flatten_tags hcodes]
  rfl

/-- No member is registered for the text that stands for no code. -/
theorem registers_ne_empty {spec : MemberSpec} {e : String × Member} (h : readMember spec = .ok e)
    {code : String} (hcode : Registers code e.1 e.2) : code ≠ "" := by
  obtain ⟨-, ⟨hname, rfl⟩ | htagged⟩ := hcode
  · intro hempty
    rw [hempty] at hname
    exact absurd ((isCodeName_iff _).2 hname) (by decide)
  cases hbody : spec.body with
  | value x =>
    rw [readMember, hbody] at h
    cases h
    exact absurd htagged List.not_mem_nil
  | method tags script =>
    obtain ⟨codes, hcodes, rfl⟩ := readMember_method h hbody
    rw [Member.tags] at htagged
    split at htagged
    · exact absurd htagged List.not_mem_nil
    · exact flatten_tags_ne_empty hcodes code htagged
  | descriptor d tags =>
    obtain ⟨codes, hcodes, rfl⟩ := readMember_descriptor h hbody
    exact flatten_tags_ne_empty hcodes code htagged

/-- What a class registers it is written with. -/
theorem Makes.registers {classes : List Class} {spec : ClassSpec} {bases : List Nat} {made : Class}
    (h : Makes classes spec bases made) {e : String × Member} (he : e ∈ made.members.entries)
    {code : String} (hcode : Registers code e.1 e.2) : ∃ s ∈ spec.members, readMember s = .ok e :=
  (h.exists_spec he).resolve_right fun hidle => hidle.not_registers _ _ hcode

theorem Hierarchy.registers_ne_empty {classes : List Class} (h : Hierarchy classes) :
    ∀ c ∈ classes, ∀ e ∈ c.members.entries, ∀ code, Registers code e.1 e.2 → code ≠ "" := by
  induction h with
  | initial =>
    simp only [← mem_codesOf]
    decide
  | define h hdefine ih =>
    obtain ⟨bases, made, hmakes, rfl⟩ := makes_of_define hdefine
    intro c hc e he code hcode
    rcases List.mem_append.1 hc with hc | hc
    · exact ih c hc e he code hcode
    · rw [List.mem_singleton.1 hc] at he
      rcases mem_settle he with he | hidle
      · obtain ⟨s, -, hread⟩ := hmakes.registers he hcode
        exact Class.registers_ne_empty hread hcode
      · exact absurd hcode (hidle.not_registers _ _)

end Class

/-! ### Dispatch -/

namespace Dialect

open Gcode.Class

theorem get?_enter {c : Class} (h : c.members.names.Nodup) (attributes : Table Attribute)
    (name : String) : (enter attributes c).get? name =
      ((c.members.get? name).map (attributeOf c name)).or (attributes.get? name) := by
  have hlast : ∀ es : List (String × Member),
      (es.foldl (fun t m => t.set m.1 (attributeOf c m.1 m.2)) attributes).get? name =
        ((es.reverse.find? fun e => e.1 = name).map fun e => attributeOf c name e.2).or
          (attributes.get? name) := by
    intro es
    induction es using List.reverseRecOn with
    | nil => rfl
    | append_singleton es e ih =>
      rw [List.foldl_append, List.foldl_cons, List.foldl_nil, Table.get?_set, ih,
        List.reverse_concat, List.find?_cons]
      by_cases he : e.1 = name
      · simp [he]
      · simp [he]
  have hfind : ((c.members.entries.reverse.find? fun e => e.1 = name).map fun e =>
      attributeOf c name e.2) = (c.members.get? name).map (attributeOf c name) := by
    cases hget : c.members.get? name with
    | none =>
      have hnone : (c.members.entries.reverse.find? fun e => e.1 = name) = none := by
        refine List.find?_eq_none.2 fun e he hname => ?_
        have hname : e.1 = name := by simpa using hname
        have hsome := Table.get?_of_mem h (List.mem_reverse.1 he)
        rw [hname, hget] at hsome
        cases hsome
      rw [hnone]
      rfl
    | some m =>
      cases hlast : c.members.entries.reverse.find? fun e => e.1 = name with
      | none =>
        have hmem := List.mem_reverse.2 (Table.mem_of_get? hget)
        exact absurd (by simp) (List.find?_eq_none.1 hlast _ hmem)
      | some e =>
        have hname : e.1 = name := by simpa using List.find?_some hlast
        have hsome := Table.get?_of_mem h (List.mem_reverse.1 (List.mem_of_find?_eq_some hlast))
        rw [hname, hget] at hsome
        cases hsome
        rfl
  rw [enter, hlast, hfind]

theorem get?_attributes {classes : List Class} {c : Class}
    (h : ∀ k ∈ along classes c.order, k.members.names.Nodup) (name : String) :
    ((ancestry classes c).foldl enter ∅).get? name =
      (firstDefinition? (along classes c.order) name).map fun d => attributeOf d.1 name d.2 := by
  rw [ancestry_eq, List.foldl_reverse, firstDefinition?]
  generalize along classes c.order = line at h
  induction line with
  | nil => rfl
  | cons k line ih =>
    obtain ⟨hk, hline⟩ := List.forall_mem_cons.1 h
    rw [List.foldr_cons, get?_enter hk, ih hline, List.findSome?_cons]
    cases k.members.get? name <;> rfl

/-- An interpreter of a class has the table that the class keeps. -/
theorem of_ofClass {classes : List Class} {c : Class} {d : Dialect}
    (h : ofClass classes c = .ok d) : c.commands = some d.table ∧
      d.attributes = ownNames.foldl (fun t n => t.set n .part)
        ((ancestry classes c).foldl enter ∅) := by
  rw [ofClass] at h
  obtain ⟨_, -, h⟩ := ok_of_bind h
  obtain ⟨_, -, h⟩ := ok_of_bind h
  split at h
  · cases h
  · rename_i table htable
    obtain ⟨_, -, h⟩ := ok_of_bind h
    obtain ⟨_, -, h⟩ := ok_of_bind h
    cases h
    exact ⟨htable, rfl⟩

/-- If a name is defined anywhere in a line, there is a first definition of it, and an interpreter
has its attribute unless it keeps the name for a part of its own. -/
theorem exists_firstDefines {classes : List Class} {c : Class} {d : Dialect}
    (h : ofClass classes c = .ok d)
    (hnodup : ∀ k ∈ along classes c.order, k.members.names.Nodup) {name : String}
    (hown : name ∉ ownNames)
    (hdefined : ∃ k ∈ along classes c.order, (k.members.get? name).isSome) :
    ∃ k m, FirstDefines (along classes c.order) name k m ∧
      d.attributes.get? name = some (attributeOf k name m) := by
  obtain ⟨-, hattributes⟩ := of_ofClass h
  obtain ⟨⟨k, m⟩, hfirst⟩ := Option.isSome_iff_exists.1 (isSome_firstDefinition?.2 hdefined)
  refine ⟨k, m, firstDefinition?_eq_some.1 hfirst, ?_⟩
  rw [hattributes, Table.get?_foldl_set, if_neg hown, get?_attributes hnodup, hfirst]
  rfl

end Dialect

namespace Interpreter

/-- Dispatch of a code calls the handler of the code and then what is given. -/
def DispatchesTo (it : Interpreter) (code : String) (call : Args → Act (Nat × Args)) : Prop :=
  ∀ args, it.dispatch ⟨code, args⟩ =
    it.callHandler code args >>= fun handled => call handled.2 >>= fun called => do
      if handled.1 + called.1 = 0 then
        Act.log .trace .dispatch ("dispatch_unhandled code=" ++ code)
      pure (handled.1 + called.1, called.2)

theorem dispatchesTo_callMethod (it : Interpreter) {code : String} (hcode : code ≠ "") :
    it.DispatchesTo code (it.callMethod code) := by
  intro args
  have hempty : ¬ code.isEmpty := by simpa using hcode
  rw [dispatch, if_neg hempty]

/-- Dispatch of a code to what an instance finds under a name: a method is called, and nothing that
cannot be. -/
def CallsFound (it : Interpreter) (code name : String) (c : Class) : Found → Prop
  | .method script => it.DispatchesTo code fun args => do
      logMethod code name
      Act.enter (.method ⟨c.name, name, script⟩ args)
      let left ← it.host.method ⟨c.name, name, script⟩ args
      pure (1, left)
  | .value _ => it.DispatchesTo code fun args => pure (0, args)

/-- Dispatch of a code to a member of a class that its name stands for. Of a descriptor it is what
an instance finds that counts. An operation is carried out, and looking up a slot may fail. -/
def CallsMember (it : Interpreter) (code name : String) (c : Class) : Member → Prop
  | .method _ script => it.CallsFound code name c (.method script)
  | .value type => it.CallsFound code name c (.value type)
  | .descriptor d _ => it.CallsFound code name c d.onInstance
  | .operation op => it.DispatchesTo code fun args => do
      logMethod code name
      it.answer op args
      pure (1, args)
  | .slot => ∃ call, it.DispatchesTo code call ∧ ∀ args m, call args m = .ok (0, args) m ∨
      ∃ f, call args m = .error f m

theorem callsMember_of_attribute {it : Interpreter} {code name : String} {c : Class} {m : Member}
    (hcode : code ≠ "") (htable : it.dialect.table.get? code = some name)
    (hattribute : it.dialect.attributes.get? name = some (Dialect.attributeOf c name m)) :
    it.CallsMember code name c m := by
  have hfound : it.dialect.attribute? code = some (name, Dialect.attributeOf c name m) := by
    rw [Dialect.attribute?, htable, Option.bind_some, hattribute]
    rfl
  have hdispatch := it.dispatchesTo_callMethod hcode
  cases m with
  | method codes script =>
    intro args
    rw [hdispatch args]
    simp only [callMethod, hfound, Dialect.attributeOf]
  | operation op =>
    intro args
    rw [hdispatch args]
    simp only [callMethod, hfound, Dialect.attributeOf]
  | value type =>
    intro args
    rw [hdispatch args]
    simp only [callMethod, hfound, Dialect.attributeOf]
  | descriptor d codes =>
    rw [CallsMember]
    rw [Dialect.attributeOf] at hfound
    cases hinstance : d.onInstance <;> rw [hinstance] at hfound <;> intro args <;>
      rw [hdispatch args] <;> simp only [callMethod, hfound]
  | slot =>
    refine ⟨_, hdispatch, fun args s => ?_⟩
    exact it.callMethod_none args (by rw [Dialect.methodFor?, hfound]; rfl) s

end Interpreter

/-! ### Which method a code reaches -/

namespace Class

variable {classes classes' : List Class} {spec : ClassSpec} {bases : List Nat} {made : Class}

/-- The codes of a base are codes of the class, whatever the class registers itself. -/
theorem Makes.inherits (h : Makes classes spec bases made) {b : Nat} (hb : b ∈ basesOf bases)
    {base k : Class} (hbase : classes[b]? = some base)
    (hbound : ∀ i ∈ base.order, i < classes.length) (hk : k.order = made.order) {code name : String}
    (hcode : (commandTable classes base).get? code = some name) :
    ∃ name', (commandTable (classes ++ [k]) k).get? code = some name' := by
  obtain ⟨j, hj, e, he, hregisters⟩ := (exists_get?_commandTable classes base code).1 ⟨name, hcode⟩
  refine (exists_get?_commandTable _ k code).2 ⟨j, ?_, e, he, hregisters⟩
  obtain ⟨order, horder, hmade⟩ := h.order_eq
  rw [← along_append hbound [k]] at hj
  obtain ⟨i, hi, hij⟩ := List.mem_filterMap.1 hj
  refine List.mem_filterMap.2 ⟨i, ?_, hij⟩
  rw [hk, hmade]
  refine List.mem_cons_of_mem _ ((mem_linearise horder i).2 (.inr ⟨b, hb, ?_⟩))
  rw [orderOf, hbase]
  exact hi

theorem settle_commands {c : Class} (hnone : c.commands = none) {table : Table String}
    (h : (settle classes c).commands = some table) :
    table = commandTable (classes ++ [c]) c := by
  rw [settle] at h
  split at h
  · cases h
    rfl
  · rw [hnone] at h
    cases h

/-- What a class defines when its table is made it still defines when it is settled. -/
theorem isSome_get?_settle {c : Class} {name : String} (h : (c.members.get? name).isSome) :
    ((settle classes c).members.get? name).isSome := by
  rcases settle_members classes c with heq | heq
  · rwa [heq]
  · rw [heq, Table.get?_set]
    split
    · rfl
    · exact h

/-- Whoever registered a code that is entered defines the name, also when the class is settled. -/
theorem Makes.defines (h : Makes classes spec bases made) (hclasses : Hierarchy classes)
    {code name : String} (hentry : (commandTable (classes ++ [made]) made).get? code = some name) :
    code ≠ "" ∧ ∃ k ∈ along (classes ++ [settle classes made]) made.order,
      (k.members.get? name).isSome := by
  obtain ⟨order, hmade, hlt⟩ := h.order_lt hclasses.length_pos hclasses.sound
  rw [get?_commandTable_eq_some, hmade, along_new hlt] at hentry
  rw [hmade, along_new hlt]
  obtain ⟨before, k, after, hline, -, front, m, back, hentries, hcode, -⟩ := hentry
  have hmem : (name, m) ∈ k.members.entries := by simp [hentries]
  have hk : k ∈ made :: along classes order := by simp [hline]
  rcases List.mem_cons.1 hk with rfl | hk
  · obtain ⟨s, -, hread⟩ := h.registers hmem hcode
    refine ⟨registers_ne_empty hread hcode, _, List.mem_cons_self, isSome_get?_settle ?_⟩
    rw [Table.get?_of_mem h.nodup hmem]
    rfl
  · have hbehind := mem_of_mem_along hk
    refine ⟨hclasses.registers_ne_empty k hbehind _ hmem code hcode, k,
      List.mem_cons_of_mem _ hk, ?_⟩
    rw [Table.get?_of_mem (hclasses.sound k hbehind).nodup hmem]
    rfl

/-- In a hierarchy, dispatch leads to the first definition of the name that is entered. -/
theorem Hierarchy.reaches (h : Hierarchy classes) {c : Class} (hc : c ∈ classes) {more : List Class}
    {it : Interpreter} (hdialect : Dialect.ofClass (classes ++ more) c = .ok it.dialect)
    {code name : String} (hcode : code ≠ "") (hentry : it.dialect.table.get? code = some name)
    (hown : name ∉ Dialect.ownNames)
    (hdefined : ∃ k ∈ along classes c.order, (k.members.get? name).isSome) :
    ∃ k m, FirstDefines (along classes c.order) name k m ∧ it.CallsMember code name k m := by
  have hline : along (classes ++ more) c.order = along classes c.order :=
    along_append (h.sound c hc).order_lt more
  have hnodup : ∀ k ∈ along (classes ++ more) c.order, k.members.names.Nodup := by
    rw [hline]
    exact fun k hk => (h.sound k (mem_of_mem_along hk)).nodup
  rw [← hline] at hdefined ⊢
  obtain ⟨k, m, hfirst, hattribute⟩ := Dialect.exists_firstDefines hdialect hnodup hown hdefined
  exact ⟨k, m, hfirst, Interpreter.callsMember_of_attribute hcode hentry hattribute⟩

end Class

open Gcode.Class

/-- The command table of a class has a code exactly if a member of a class in its line registers the
code, by a name that is a code or by a tag, which is taken in upper case; the entry is the name of
the last member that does so in the first class that has one. A class registers nothing but what it
is written with, it keeps the table that is made when it is defined, and every code of a base is in
it. An interpreter of the class dispatches the code to the first definition of that name in the
line, whether that registers anything or not: it calls what an instance finds there, and nothing if
that cannot be called. This holds for every name but those of its own parts. -/
theorem commandTable_reaches :
    (∀ classes c code,
      ((∃ name, (commandTable classes c).get? code = some name) ↔
        ∃ k ∈ along classes c.order, ∃ e ∈ k.members.entries, Registers code e.1 e.2) ∧
      ∀ name, (commandTable classes c).get? code = some name ↔
        Entered (along classes c.order) code name) ∧
    (∀ spec e, readMember spec = .ok e → ∀ code,
      (∀ tags script, spec.body = .method tags script →
        (Registers code e.1 e.2 ↔ spec.name ∉ Member.classNames ∧
          (IsCodeName spec.name ∧ code = spec.name ∨
            ∃ tag ∈ tags, ∃ s, Literal.text s ∈ tag ∧ code = upper s))) ∧
      ∀ d tags, spec.body = .descriptor d tags →
        (Registers code e.1 e.2 ↔ d.callable = true ∧
          (IsCodeName spec.name ∧ code = spec.name ∨
            ∃ tag ∈ tags, ∃ s, Literal.text s ∈ tag ∧ code = upper s))) ∧
    ∀ classes, Hierarchy classes → ∀ spec classes', define classes spec = .ok classes' →
      ∃ bases made c, Makes classes spec bases made ∧ c = settle classes made ∧
        classes' = classes ++ [c] ∧
        (∀ e ∈ made.members.entries, ∀ code, Registers code e.1 e.2 →
          ∃ s ∈ spec.members, readMember s = .ok e) ∧
        (∀ table, c.commands = some table → table = commandTable (classes ++ [made]) made) ∧
        (∀ b ∈ basesOf bases, ∃ base, classes[b]? = some base ∧
          ∀ k, k.order = made.order → ∀ code name,
            (commandTable classes base).get? code = some name →
              ∃ name', (commandTable (classes ++ [k]) k).get? code = some name') ∧
        ∀ more (it : Interpreter), Dialect.ofClass (classes' ++ more) c = .ok it.dialect →
          ∀ code name, it.dialect.table.get? code = some name → name ∉ Dialect.ownNames →
            ∃ k m, FirstDefines (along classes' c.order) name k m ∧
              it.CallsMember code name k m := by
  refine ⟨fun classes c code => ⟨exists_get?_commandTable classes c code, fun name =>
    get?_commandTable_eq_some classes c code name⟩, fun spec e h code =>
    ⟨fun tags script hbody => registers_method h hbody code,
      fun d tags hbody => registers_descriptor h hbody code⟩,
    fun classes h spec classes' hdefine => ?_⟩
  obtain ⟨bases, made, hmakes, rfl⟩ := makes_of_define hdefine
  refine ⟨bases, made, _, hmakes, rfl, rfl, fun e he code hcode => hmakes.registers he hcode,
    fun table htable => settle_commands hmakes.commands_eq htable, fun b hb => ?_,
    fun more it hdialect code name hentry hown => ?_⟩
  · have hbase := List.getElem?_eq_getElem (hmakes.bases_lt h.length_pos b hb)
    refine ⟨_, hbase, fun k hk code name hcode => ?_⟩
    exact hmakes.inherits hb hbase (h.sound _ (List.mem_of_getElem? hbase)).order_lt hk hcode
  · have htable := settle_commands hmakes.commands_eq (Dialect.of_ofClass hdialect).1
    obtain ⟨hcode, hdefined⟩ := hmakes.defines h (htable ▸ hentry)
    rw [← settle_order] at hdefined
    exact (h.define hdefine).reaches (List.mem_append_right _ List.mem_cons_self) hdialect hcode
      hentry hown hdefined

/-- A class that probes and moves, one that does not probe, and one that moves in another way. -/
def carriers : List ClassSpec :=
  [{ name := "Probing", bases := [Operation.interpreterName],
     members := [⟨"probe", .method [[.text "g38.2"]] none⟩, ⟨"G1", .method [] none⟩] },
   { name := "Parked", bases := ["Probing"], members := [⟨"probe", .value .null⟩] },
   { name := "Quick", bases := ["Probing"],
     members := [⟨"move", .method [[.text "G1"]] none⟩] }]

/-- A class with two of them for bases. It moves in its own way, and tags nothing. -/
def mill : ClassSpec where
  name := "Mill"
  bases := ["Parked", "Quick"]
  members := [⟨"move", .method [] none⟩]

/-- The method that moves is entered for another class than the one that has it; the method that
probes is entered, but hidden behind a plain value. -/
theorem commandTable_reaches_mill :
    ∃ classes c, ∃ it : Interpreter, Dialect.ofClass classes c = .ok it.dialect ∧
      (along classes c.order).map (·.name) =
        ["Mill", "Parked", "Quick", "Probing", "GcodeInterpreter", "LifecycleNotifier", "object"] ∧
      (it.dialect.table.get? "G1" = some "move" ∧
        ∃ k, k.name = "Mill" ∧ it.CallsMember "G1" "move" k (.method [] none)) ∧
      it.dialect.table.get? "G38.2" = some "probe" ∧
        ∃ k, k.name = "Parked" ∧ it.CallsMember "G38.2" "probe" k (.value "NoneType") := by
  have hmade : ((defineAll initial carriers).toOption.bind fun r =>
      (define r.1 mill).toOption.bind fun classes => classes.getLast?.bind fun c =>
        (Dialect.ofClass classes c).toOption.map fun d =>
          ((along classes c.order).map (·.name), ["G1", "G38.2"].map d.table.get?,
            ["move", "probe"].map fun name =>
              (firstDefinition? (along classes c.order) name).map fun p => (p.1.name, p.2))) =
      some (["Mill", "Parked", "Quick", "Probing", "GcodeInterpreter", "LifecycleNotifier",
          "object"], [some "move", some "probe"],
        [some ("Mill", .method [] none), some ("Parked", .value "NoneType")]) := by
    simp only [defineAll, carriers, define, String.contains_char_eq]
    decide +kernel
  obtain ⟨⟨classes, records⟩, hcarriers, hmade⟩ := Option.bind_eq_some_iff.1 hmade
  obtain ⟨classes', hmill, hmade⟩ := Option.bind_eq_some_iff.1 hmade
  obtain ⟨c, hlast, hmade⟩ := Option.bind_eq_some_iff.1 hmade
  obtain ⟨d, hd, hmade⟩ := Option.map_eq_some_iff.1 hmade
  have hdialect := ok_of_toOption hd
  obtain ⟨hline, hrest⟩ := Prod.mk.inj hmade
  obtain ⟨hentries, hdefinitions⟩ := Prod.mk.inj hrest
  simp only [List.map_cons, List.map_nil, List.cons.injEq, and_true] at hentries hdefinitions
  obtain ⟨hmove, hprobe⟩ := hentries
  obtain ⟨hmoves, hprobes⟩ := hdefinitions
  obtain ⟨-, -, htables⟩ := commandTable_reaches
  obtain ⟨bases, made, k, -, -, hclasses, -, -, -, hreaches⟩ := htables classes
    (Hierarchy.initial.defineAll (ok_of_toOption hcarriers)) mill classes' (ok_of_toOption hmill)
  obtain rfl : k = c := by
    rw [hclasses, List.getLast?_concat] at hlast
    exact Option.some.inj hlast
  have hreaches := hreaches [] { dialect := d, host := Host.silent } (by rwa [List.append_nil])
  refine ⟨classes', k, { dialect := d, host := Host.silent }, hdialect, hline, ⟨hmove, ?_⟩,
    hprobe, ?_⟩
  · obtain ⟨j, m, hfirst, hcalls⟩ := hreaches "G1" "move" hmove (by decide)
    rw [firstDefinition?_eq_some.2 hfirst] at hmoves
    obtain ⟨hname, rfl⟩ := Prod.mk.inj (Option.some.inj hmoves)
    exact ⟨j, hname, hcalls⟩
  · obtain ⟨j, m, hfirst, hcalls⟩ := hreaches "G38.2" "probe" hprobe (by decide)
    rw [firstDefinition?_eq_some.2 hfirst] at hprobes
    obtain ⟨hname, rfl⟩ := Prod.mk.inj (Option.some.inj hprobes)
    exact ⟨j, hname, hcalls⟩

/-- A class tags a method of its own that has the name of an operation of the class. Another one has
it behind all interpreters, and a third one gives what its base has for a method to the class. -/
def looseners : List ClassSpec :=
  [{ name := "Mixin", bases := [],
     members := [⟨Operation.listCommands.name, .method [[.text "M5"]] none⟩] },
   { name := "Runner", bases := [Operation.interpreterName, "Mixin"],
     members := [⟨"G1", .method [] none⟩] },
   { name := "Shared", bases := ["Runner"],
     members := [⟨"G1", .descriptor ⟨"classmethod", false, .method none, .method none⟩ []⟩] }]

/-- Two definitions come first that cannot be called as they stand, and register nothing. Both are
called all the same: one is what an instance finds of a method of the class, and the other one is an
operation of the class, which does not take the arguments of a command. -/
theorem commandTable_reaches_uncallable :
    ∃ classes c, ∃ it : Interpreter, Dialect.ofClass classes c = .ok it.dialect ∧
      (∃ k m left, it.dialect.table.get? "G1" = some "G1" ∧
        FirstDefines (along classes c.order) "G1" k m ∧ m.callable "G1" = false ∧
        it.dispatch ⟨"G1", ∅⟩ {} = .ok (1, ∅) left ∧
        left.journal = [.method ⟨"Shared", "G1", none⟩ ∅]) ∧
      ∃ k m left, it.dialect.table.get? "M5" = some "list_command_methods" ∧
        FirstDefines (along classes c.order) "list_command_methods" k m ∧
        m.callable "list_command_methods" = false ∧
        it.dispatch ⟨"M5", ∅⟩ {} =
          .error (.tooManyArguments "GcodeInterpreter.list_command_methods") left := by
  have hmade : ((defineAll initial looseners).toOption.bind fun r =>
      r.1.getLast?.bind fun c => (Dialect.ofClass r.1 c).toOption.map fun d =>
        (["G1", "M5"].map d.table.get?, ["G1", "list_command_methods"].map fun name =>
          (firstDefinition? (along r.1 c.order) name).map fun p => (p.1.name, p.2))) =
      some ([some "G1", some "list_command_methods"],
        [some ("Shared", .descriptor ⟨"classmethod", false, .method none, .method none⟩ []),
          some ("GcodeInterpreter", .operation .listCommands)]) := by
    simp only [defineAll, looseners, define, String.contains_char_eq]
    decide +kernel
  obtain ⟨⟨classes, records⟩, hdefined, hmade⟩ := Option.bind_eq_some_iff.1 hmade
  obtain ⟨c, hlast, hmade⟩ := Option.bind_eq_some_iff.1 hmade
  obtain ⟨d, hd, hmade⟩ := Option.map_eq_some_iff.1 hmade
  obtain ⟨hentries, hdefinitions⟩ := Prod.mk.inj hmade
  simp only [List.map_cons, List.map_nil, List.cons.injEq, and_true] at hentries hdefinitions
  obtain ⟨hG1, hM5⟩ := hentries
  obtain ⟨hshared, hlist⟩ := hdefinitions
  obtain ⟨⟨k, m⟩, hfirst, hk⟩ := Option.map_eq_some_iff.1 hshared
  obtain ⟨⟨k', m'⟩, hfirst', hk'⟩ := Option.map_eq_some_iff.1 hlist
  obtain ⟨hname, rfl⟩ := Prod.mk.inj hk
  obtain ⟨-, rfl⟩ := Prod.mk.inj hk'
  have hclasses : Hierarchy classes := Hierarchy.initial.defineAll (ok_of_toOption hdefined)
  have hreaches : ∀ code name, code ≠ "" → d.table.get? code = some name →
      name ∉ Dialect.ownNames → ∀ k m, firstDefinition? (along classes c.order) name = some (k, m) →
      Interpreter.CallsMember { dialect := d } code name k m := by
    intro code name hcode hentry hown k m hkm
    have hdialect : Dialect.ofClass (classes ++ []) c =
        .ok ({ dialect := d } : Interpreter).dialect := by
      rw [List.append_nil]
      exact ok_of_toOption hd
    obtain ⟨k₁, m₁, hfirst₁, hcalls⟩ := hclasses.reaches (List.mem_of_getLast? hlast) hdialect hcode
      hentry hown (isSome_firstDefinition?.1 (Option.isSome_of_eq_some hkm))
    rw [firstDefinition?_eq_some.2 hfirst₁] at hkm
    obtain ⟨rfl, rfl⟩ := Prod.mk.inj (Option.some.inj hkm)
    exact hcalls
  have hmethod := hreaches _ _ (by decide) hG1 (by decide) _ _ hfirst ∅
  have hoperation := hreaches _ _ (by decide) hM5 (by decide) _ _ hfirst' ∅
  refine ⟨classes, c, { dialect := d }, ok_of_toOption hd,
    ⟨k, _, _, hG1, firstDefinition?_eq_some.1 hfirst, rfl, congrFun hmethod {}, ?_⟩,
    k', _, _, hM5, firstDefinition?_eq_some.1 hfirst', rfl, congrFun hoperation {}⟩
  rw [← hname]
  rfl

end Gcode
