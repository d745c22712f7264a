import Gcode.Class
import Gcode.Proofs.Resolution
import Mathlib.Data.List.Nodup

/-!
Hierarchies of classes. A class is defined on top of the classes before it, and the classes behind
it are those that are behind its bases, in the order into which these merge. Main statements: the
order of a new class holds exactly the class itself, its bases and what is behind them
(`mem_linearise`), and what holds of every class in a hierarchy, whatever was defined
(`Hierarchy.sound`).
-/

namespace Gcode

/-! ### Names of members -/

namespace Table

variable {α : Type}

theorem nodup_set {t : Table α} (h : t.names.Nodup) (name : String) (value : α) :
    (t.set name value).names.Nodup := by
  rw [names_set]
  split
  · exact h
  · rename_i hname
    exact h.append (List.nodup_singleton name) (List.disjoint_singleton.2 hname)

theorem nodup_erase {t : Table α} (h : t.names.Nodup) (name : String) :
    (t.erase name).names.Nodup :=
  h.sublist (List.filter_sublist.map _)

theorem nodup_ofList (es : List (String × α)) : (ofList es).names.Nodup := by
  induction es using List.reverseRecOn with
  | nil => exact List.nodup_nil
  | append_singleton es e ih =>
    rw [ofList_append_singleton]
    exact nodup_set ih _ _

theorem mem_of_get? {t : Table α} {name : String} {value : α} (h : t.get? name = some value) :
    (name, value) ∈ t.entries := by
  obtain ⟨e, hfind, rfl⟩ := Option.map_eq_some_iff.1 h
  have hname : e.1 = name := by simpa using List.find?_some hfind
  rw [← hname]
  exact List.mem_of_find?_eq_some hfind

/-- In a table of different names, every entry is found. -/
theorem get?_of_mem {t : Table α} (h : t.names.Nodup) {name : String} {value : α}
    (hmem : (name, value) ∈ t.entries) : t.get? name = some value := by
  obtain ⟨es⟩ := t
  induction es with
  | nil => exact absurd hmem List.not_mem_nil
  | cons e es ih =>
    obtain ⟨hfresh, hrest⟩ := List.nodup_cons.1 h
    rw [get?, List.find?_cons]
    by_cases he : e.1 = name
    · rcases List.mem_cons.1 hmem with rfl | hmem
      · simp
      · have hname : e.1 ∈ es.map (·.1) := by
          rw [he]
          exact List.mem_map_of_mem hmem
        exact absurd hname hfresh
    · rcases List.mem_cons.1 hmem with rfl | hmem
      · exact absurd rfl he
      · rw [decide_eq_false he]
        exact ih hrest hmem

end Table

namespace Class

/-! ### Merging -/

/-- A list without its head, if that is the given class. -/
def dropHead (c : Nat) (l : List Nat) : List Nat := if l.head? = some c then l.tail else l

/-- Lists of classes with an order into which they merge: a class that is the head of a list, and
behind no other class, comes first. -/
inductive Merges : List (List Nat) → List Nat → Prop where
  | done {lists : List (List Nat)} (h : ∀ l ∈ lists, l = []) : Merges lists []
  | next {lists : List (List Nat)} {c : Nat} {order : List Nat}
    (hhead : ∃ l ∈ lists, l.head? = some c) (hleads : mayLead lists c = true)
    (h : Merges (lists.map (dropHead c)) order) : Merges lists (c :: order)

theorem mem_dropHead {c x : Nat} {l : List Nat} : x ∈ dropHead c l → x ∈ l := by
  rw [dropHead]
  split
  · exact List.mem_of_mem_tail
  · exact id

theorem mem_or_mem_dropHead {c x : Nat} {l : List Nat} (hx : x ∈ l) :
    x = c ∨ x ∈ dropHead c l := by
  rw [dropHead]
  split
  · rename_i hhead
    obtain ⟨t, rfl⟩ := List.head?_eq_some_iff.1 hhead
    exact List.mem_cons.1 hx
  · exact .inr hx

/-- The order has all classes of the lists and no others. -/
theorem Merges.mem_iff {lists : List (List Nat)} {order : List Nat} (h : Merges lists order)
    (x : Nat) : x ∈ order ↔ ∃ l ∈ lists, x ∈ l := by
  induction h with
  | done h =>
    constructor
    · exact fun hx => absurd hx List.not_mem_nil
    · rintro ⟨l, hl, hx⟩
      rw [h l hl] at hx
      exact absurd hx List.not_mem_nil
  | @next lists c order hhead hleads _ ih =>
    rw [List.mem_cons, ih]
    constructor
    · rintro (rfl | ⟨l, hl, hx⟩)
      · obtain ⟨l, hl, hhead⟩ := hhead
        exact ⟨l, hl, List.mem_of_head? hhead⟩
      · obtain ⟨l', hl', rfl⟩ := List.mem_map.1 hl
        exact ⟨l', hl', mem_dropHead hx⟩
    · rintro ⟨l, hl, hx⟩
      exact (mem_or_mem_dropHead hx).imp_right fun hx => ⟨_, List.mem_map_of_mem hl, hx⟩

theorem mem_heads {lists : List (List Nat)} {c : Nat} :
    c ∈ heads lists ↔ ∃ l ∈ lists, l.head? = some c := by
  rw [heads, List.mem_eraseDups, List.mem_filterMap]

theorem length_dropHead_le (c : Nat) (l : List Nat) : (dropHead c l).length ≤ l.length := by
  rw [dropHead]
  split
  · rw [List.length_tail]
    exact Nat.sub_le _ _
  · exact le_rfl

theorem length_flatten_dropHead_le (c : Nat) (lists : List (List Nat)) :
    (lists.map (dropHead c)).flatten.length ≤ lists.flatten.length := by
  induction lists with
  | nil => exact le_rfl
  | cons l lists ih =>
    rw [List.map_cons, List.flatten_cons, List.flatten_cons, List.length_append, List.length_append]
    exact Nat.add_le_add (length_dropHead_le c l) ih

/-- Every step of a merge takes something away. -/
theorem length_flatten_dropHead_lt {c : Nat} {lists : List (List Nat)}
    (h : ∃ l ∈ lists, l.head? = some c) :
    (lists.map (dropHead c)).flatten.length < lists.flatten.length := by
  induction lists with
  | nil =>
    obtain ⟨l, hl, -⟩ := h
    exact absurd hl List.not_mem_nil
  | cons l lists ih =>
    rw [List.map_cons, List.flatten_cons, List.flatten_cons, List.length_append, List.length_append]
    by_cases hl : l.head? = some c
    · obtain ⟨t, rfl⟩ := List.head?_eq_some_iff.1 hl
      have hrest := length_flatten_dropHead_le c lists
      rw [dropHead, if_pos hl, List.tail_cons, List.length_cons]
      omega
    · obtain ⟨l', hl', hhead⟩ := h
      have hrest := ih ⟨l', (List.mem_cons.1 hl').resolve_left fun h => hl (h ▸ hhead), hhead⟩
      have := length_dropHead_le c l
      omega

theorem merges_of_merge : ∀ (fuel : Nat) {lists : List (List Nat)} {order : List Nat},
    lists.flatten.length ≤ fuel → merge fuel lists = .ok order → Merges lists order
  | 0, lists, order, hfuel, h => by
    cases h
    refine .done fun l hl => List.eq_nil_of_length_eq_zero ?_
    have := (List.sublist_flatten_of_mem hl).length_le
    omega
  | fuel + 1, lists, order, hfuel, h => by
    rw [merge] at h
    split at h
    · rename_i hheads
      cases h
      refine .done fun l hl => ?_
      cases l with
      | nil => rfl
      | cons c l =>
        have hc : c ∈ heads lists := mem_heads.2 ⟨_, hl, rfl⟩
        rw [hheads] at hc
        exact absurd hc List.not_mem_nil
    · split at h
      · cases h
      · rename_i c hfind
        have hhead := mem_heads.1 (List.mem_of_find?_eq_some hfind)
        have hless := length_flatten_dropHead_lt hhead
        have hmap : (merge fuel (lists.map (dropHead c))).map (c :: ·) = .ok order := h
        cases hrest : merge fuel (lists.map (dropHead c)) with
        | error hs =>
          rw [hrest] at hmap
          cases hmap
        | ok rest =>
          rw [hrest] at hmap
          cases hmap
          exact .next hhead (List.find?_some hfind) (merges_of_merge fuel (by omega) hrest)

/-- The order behind a class holds its bases and what is behind them, and nothing else. -/
theorem mem_linearise {classes : List Class} {bases order : List Nat}
    (h : linearise classes bases = .ok order) (x : Nat) :
    x ∈ order ↔ x ∈ bases ∨ ∃ b ∈ bases, x ∈ orderOf classes b := by
  rw [linearise] at h
  split at h
  · cases h
  dsimp only at h
  split at h
  · rename_i hmerge
    cases h
    rw [(merges_of_merge _ le_rfl hmerge).mem_iff]
    simp only [List.mem_append, List.mem_map, List.mem_singleton]
    constructor
    · rintro ⟨l, ⟨b, hb, rfl⟩ | rfl, hx⟩
      · exact .inr ⟨b, hb, hx⟩
      · exact .inl hx
    · rintro (hx | ⟨b, hb, hx⟩)
      · exact ⟨bases, .inr rfl, hx⟩
      · exact ⟨_, .inl ⟨b, hb, rfl⟩, hx⟩
  · cases h

/-! ### Definitions -/

theorem find_lt {classes : List Class} {name : String} {i : Nat} (h : find classes name = .ok i) :
    i < classes.length := by
  rw [find] at h
  split at h
  · rename_i k hk
    cases h
    have hlt := (List.findIdx?_eq_some_iff_getElem.1 hk).1
    rw [List.length_reverse, List.length_drop] at hlt
    omega
  · cases h

/-- If two steps succeed, the first does. -/
theorem ok_of_bind {α β : Type} {a : Except Fault α} {f : α → Except Fault β} {y : β}
    (h : (a >>= f) = .ok y) : ∃ x, a = .ok x ∧ f x = .ok y := by
  cases a with
  | error e => cases h
  | ok x => exact ⟨x, rfl, h⟩

theorem ok_of_toOption {α : Type} {a : Except Fault α} {x : α} (h : a.toOption = some x) :
    a = .ok x := by
  cases a with
  | error e => cases h
  | ok y =>
    cases h
    rfl

theorem mem_of_mapM {α β : Type} {f : α → Except Fault β} : ∀ {xs : List α} {ys : List β},
    xs.mapM f = .ok ys → ∀ y ∈ ys, ∃ x ∈ xs, f x = .ok y
  | [], ys, h, y, hy => by
    cases h
    exact absurd hy List.not_mem_nil
  | x :: xs, ys, h, y, hy => by
    rw [List.mapM_cons] at h
    obtain ⟨z, hz, hrest⟩ := ok_of_bind h
    obtain ⟨zs, hzs, hend⟩ := ok_of_bind hrest
    cases hend
    rcases List.mem_cons.1 hy with rfl | hy
    · exact ⟨x, List.mem_cons_self, hz⟩
    · obtain ⟨x', hx', hy⟩ := mem_of_mapM hzs y hy
      exact ⟨x', List.mem_cons_of_mem _ hx', hy⟩

theorem exists_of_mapM {α β : Type} {f : α → Except Fault β} : ∀ {xs : List α} {ys : List β},
    xs.mapM f = .ok ys → ∀ x ∈ xs, ∃ y ∈ ys, f x = .ok y
  | [], _, _, x, hx => absurd hx List.not_mem_nil
  | x :: xs, ys, h, x', hx' => by
    rw [List.mapM_cons] at h
    obtain ⟨z, hz, hrest⟩ := ok_of_bind h
    obtain ⟨zs, hzs, hend⟩ := ok_of_bind hrest
    cases hend
    rcases List.mem_cons.1 hx' with rfl | hx'
    · exact ⟨z, List.mem_cons_self, hz⟩
    · obtain ⟨y, hy, hf⟩ := exists_of_mapM hzs x' hx'
      exact ⟨y, List.mem_cons_of_mem _ hy, hf⟩

/-- The bases of a class by their numbers. Without any, the class behind all others is the base. -/
def basesOf (bases : List Nat) : List Nat := if bases.isEmpty then [0] else bases

/-- What the definition of a class comes to, before its command table is made. -/
structure Makes (classes : List Class) (spec : ClassSpec) (bases : List Nat) (made : Class) :
    Prop where
  bases_eq : spec.bases.mapM (find classes) = .ok bases
  order_eq : ∃ order, linearise classes (basesOf bases) = .ok order ∧
    made.order = classes.length :: order
  members_eq : ∃ members slots, readMembers spec.members = .ok members ∧
    made.members = complete (transientNames.foldl Table.erase members) slots
  commands_eq : made.commands = none

/-- A definition adds one class, which is settled. -/
theorem makes_of_define {classes classes' : List Class} {spec : ClassSpec}
    (h : define classes spec = .ok classes') :
    ∃ bases made, Makes classes spec bases made ∧ classes' = classes ++ [settle classes made] := by
  rw [define] at h
  obtain ⟨members, hmembers, h⟩ := ok_of_bind h
  obtain ⟨bases, hbases, h⟩ := ok_of_bind h
  obtain ⟨base, -, h⟩ := ok_of_bind h
  obtain ⟨slots, -, h⟩ := ok_of_bind h
  dsimp only at h
  split at h
  · cases h
  obtain ⟨_, -, h⟩ := ok_of_bind h
  obtain ⟨order, horder, h⟩ := ok_of_bind h
  obtain ⟨_, -, h⟩ := ok_of_bind h
  cases h
  refine ⟨bases, _, ⟨hbases, ⟨order, horder, rfl⟩, ⟨members, slots, hmembers, rfl⟩, rfl⟩, rfl⟩

theorem settle_order (classes : List Class) (c : Class) : (settle classes c).order = c.order := by
  rw [settle]
  split <;> rfl

/-- A class that was settled has the members it was made with, but for the table that it keeps. -/
theorem settle_members (classes : List Class) (c : Class) :
    (settle classes c).members = c.members ∨
      (settle classes c).members = c.members.set tableName (.value "dict") := by
  rw [settle]
  split
  · exact .inr rfl
  · exact .inl rfl

/-- A member that cannot be called under any name, so that it has no codes. -/
def Idle (m : Member) : Prop := ∀ name, m.callable name = false

theorem idle_value (type : String) : Idle (.value type) := fun _ => rfl

theorem idle_slot : Idle .slot := fun _ => rfl

theorem Slots.idle_members (slots : Slots) : ∀ m ∈ slots.members, Idle m.2 := by
  grind [Slots.members, idle_value, idle_slot]

/-- What every class has besides its own members is set, one after the other, and cannot be called.
-/
theorem complete_induction {P : Table Member → Prop} {members : Table Member} (h : P members)
    (hset : ∀ t name m, Idle m → P t → P (t.set name m)) (slots : Slots) :
    P (complete members slots) := by
  have hsupply : ∀ t (m : String × Member), Idle m.2 → P t → P (supply t m) := by
    intro t m hm ht
    rw [supply]
    split
    · exact ht
    · exact hset t m.1 m.2 hm ht
  have hall : P (([("__module__", Member.value "str")] ++ slots.members ++
      [("__doc__", Member.value "NoneType")]).foldl supply members) := by
    refine List.foldlRecOn (motive := P) _ _ h fun t ht m hm => hsupply t m ?_ ht
    rcases List.mem_append.1 hm with hm | hm
    · rcases List.mem_append.1 hm with hm | hm
      · rw [List.mem_singleton.1 hm]
        exact idle_value _
      · exact slots.idle_members m hm
    · rw [List.mem_singleton.1 hm]
      exact idle_value _
  rw [complete]
  split
  · exact hsupply _ _ (idle_value _) hall
  · exact hall

theorem nodup_complete {members : Table Member} (h : members.names.Nodup) (slots : Slots) :
    (complete members slots).names.Nodup :=
  complete_induction (P := fun t => t.names.Nodup) h
    (fun _ name m _ ht => Table.nodup_set ht name m) slots

theorem mem_complete {members : Table Member} {slots : Slots} {e : String × Member}
    (h : e ∈ (complete members slots).entries) : e ∈ members.entries ∨ Idle e.2 := by
  refine complete_induction (P := fun t => ∀ e ∈ t.entries, e ∈ members.entries ∨ Idle e.2)
    (fun e he => .inl he) (fun t name m hm ht e he => ?_) slots e h
  rcases Table.mem_put he with rfl | he
  · exact .inr hm
  · exact ht e he

/-- A class has a method only if it is written with it. -/
theorem Makes.exists_spec {classes : List Class} {spec : ClassSpec} {bases : List Nat}
    {made : Class} (h : Makes classes spec bases made) {e : String × Member}
    (he : e ∈ made.members.entries) :
    (∃ s ∈ spec.members, readMember s = .ok e) ∨ Idle e.2 := by
  obtain ⟨members, slots, hmembers, hmade⟩ := h.members_eq
  rw [hmade] at he
  refine (mem_complete he).imp_left fun he => ?_
  have he : e ∈ members.entries := (List.mem_filter.1 (List.mem_filter.1 he).1).1
  rw [readMembers] at hmembers
  cases hmap : spec.members.mapM readMember with
  | error f =>
    rw [hmap] at hmembers
    cases hmembers
  | ok ms =>
    rw [hmap] at hmembers
    cases hmembers
    exact mem_of_mapM hmap e (Table.mem_ofList he)

/-- A class that is settled has no methods but those it was made with. -/
theorem mem_settle {classes : List Class} {c : Class} {e : String × Member}
    (h : e ∈ (settle classes c).members.entries) : e ∈ c.members.entries ∨ Idle e.2 := by
  rcases settle_members classes c with heq | heq
  · rw [heq] at h
    exact .inl h
  · rw [heq] at h
    rcases Table.mem_put h with rfl | h
    · exact .inr (idle_value _)
    · exact .inl h

/-- The members of a class have different names. -/
theorem Makes.nodup {classes : List Class} {spec : ClassSpec} {bases : List Nat} {made : Class}
    (h : Makes classes spec bases made) : made.members.names.Nodup := by
  obtain ⟨members, slots, hmembers, hmade⟩ := h.members_eq
  rw [hmade]
  refine nodup_complete ?_ slots
  have hread : members.names.Nodup := by
    rw [readMembers] at hmembers
    cases hmap : spec.members.mapM readMember with
    | error f =>
      rw [hmap] at hmembers
      cases hmembers
    | ok ms =>
      rw [hmap] at hmembers
      cases hmembers
      exact Table.nodup_ofList ms
  exact Table.nodup_erase (Table.nodup_erase hread _) _

/-! ### Hierarchies -/

/-- Classes that were defined one on top of the other. -/
inductive Hierarchy : List Class → Prop where
  | initial : Hierarchy initial
  | define {classes classes' : List Class} {spec : ClassSpec} (h : Hierarchy classes)
    (hdefine : define classes spec = .ok classes') : Hierarchy classes'

/-- Definitions one after the other keep to the hierarchy. -/
theorem Hierarchy.defineAll {specs : List ClassSpec} : ∀ {classes : List Class}, Hierarchy classes →
    ∀ {classes' : List Class} {records : List Log.Record},
      Class.defineAll classes specs = .ok (classes', records) → Hierarchy classes' := by
  induction specs with
  | nil =>
    intro classes h classes' records hall
    cases hall
    exact h
  | cons spec specs ih =>
    intro classes h classes' records hall
    rw [Class.defineAll] at hall
    split at hall
    · cases hall
    · rename_i made hmade
      dsimp only at hall
      cases hrest : Class.defineAll made specs with
      | error f =>
        rw [hrest] at hall
        cases hall
      | ok r =>
        rw [hrest] at hall
        cases hall
        exact ih (h.define hmade) hrest

/-- What holds of every class of a hierarchy. -/
structure Sound (classes : List Class) (c : Class) : Prop where
  order_lt : ∀ i ∈ c.order, i < classes.length
  nodup : c.members.names.Nodup

theorem Hierarchy.length_pos {classes : List Class} (h : Hierarchy classes) :
    0 < classes.length := by
  induction h with
  | initial => decide
  | define h hdefine ih =>
    obtain ⟨bases, made, -, rfl⟩ := makes_of_define hdefine
    rw [List.length_append]
    omega

theorem Makes.bases_lt {classes : List Class} {spec : ClassSpec} {bases : List Nat} {made : Class}
    (h : Makes classes spec bases made) (hpos : 0 < classes.length) :
    ∀ b ∈ basesOf bases, b < classes.length := by
  intro b hb
  rw [basesOf] at hb
  split at hb
  · rw [List.mem_singleton.1 hb]
    exact hpos
  · obtain ⟨name, -, hfind⟩ := mem_of_mapM h.bases_eq b hb
    exact find_lt hfind

theorem Makes.order_lt {classes : List Class} {spec : ClassSpec} {bases : List Nat} {made : Class}
    (h : Makes classes spec bases made) (hpos : 0 < classes.length)
    (hsound : ∀ c ∈ classes, Sound classes c) :
    ∃ order, made.order = classes.length :: order ∧ ∀ i ∈ order, i < classes.length := by
  obtain ⟨order, horder, hmade⟩ := h.order_eq
  refine ⟨order, hmade, fun i hi => ?_⟩
  rcases (mem_linearise horder i).1 hi with hbase | ⟨b, -, hbehind⟩
  · exact h.bases_lt hpos i hbase
  · rw [orderOf] at hbehind
    cases hb : classes[b]? with
    | none =>
      rw [hb] at hbehind
      exact absurd hbehind List.not_mem_nil
    | some c =>
      rw [hb] at hbehind
      exact (hsound c (List.mem_of_getElem? hb)).order_lt i hbehind

/-- In a hierarchy, the numbers in an order are those of classes, and members have different
names. -/
theorem Hierarchy.sound {classes : List Class} (h : Hierarchy classes) :
    ∀ c ∈ classes, Sound classes c := by
  induction h with
  | initial =>
    intro c hc
    constructor
    · revert c
      decide
    · revert c
      decide
  | @define classes classes' spec h hdefine ih =>
    obtain ⟨bases, made, hmakes, rfl⟩ := makes_of_define hdefine
    intro c hc
    rcases List.mem_append.1 hc with hc | hc
    · refine ⟨fun i hi => ?_, (ih c hc).nodup⟩
      rw [List.length_append]
      exact ((ih c hc).order_lt i hi).trans_le (Nat.le_add_right _ _)
    · obtain ⟨order, hmade, hlt⟩ := hmakes.order_lt h.length_pos ih
      rw [List.mem_singleton.1 hc]
      constructor
      · intro i hi
        rw [settle_order, hmade] at hi
        rw [List.length_append, List.length_singleton]
        rcases List.mem_cons.1 hi with rfl | hi
        · exact Nat.lt_succ_self _
        · exact (hlt i hi).trans (Nat.lt_succ_self _)
      · rcases settle_members classes made with heq | heq
        · rw [heq]
          exact hmakes.nodup
        · rw [heq]
          exact Table.nodup_set hmakes.nodup _ _

end Class

end Gcode
