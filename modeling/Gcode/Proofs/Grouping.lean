import Gcode.Proofs.Dispatching

/-!
The groups of a line, without the way in which they are found. Groups decompose a line if they hold
its words in order, none of them is empty, a command word comes first in its group, and every group
but the first begins with one. Main statement: the groups of a line decompose it, and no others do;
so two lines that are joined have the groups of both exactly if one of them is empty or the second
begins with a command word (`partition_iff_decomposes`).
-/

namespace Gcode.Group

variable {ws ws' : List Word} {g : List Word} {gs gs' : List (List Word)}

/-- Lists of words that some words fall into as groups. -/
structure Decomposes (ws : List Word) (gs : List (List Word)) : Prop where
  ne_nil : ∀ g ∈ gs, g ≠ []
  flatten : gs.flatten = ws
  /-- A command word comes first. -/
  single : ∀ g ∈ gs, ∀ w ∈ g.tail, ¬ w.isCommand
  /-- Every group but the first begins with a command word. -/
  opened : ∀ g ∈ gs.tail, ∃ w ∈ g.head?, w.isCommand

theorem words_injective : Function.Injective words := by
  rintro ⟨w, ws⟩ ⟨w', ws'⟩ h
  cases h
  rfl

/-- The groups of a line decompose it. -/
theorem decomposes_partition (ws : List Word) : Decomposes ws ((partition ws).map words) where
  ne_nil g hg := by
    obtain ⟨g, -, rfl⟩ := List.mem_map.1 hg
    exact List.cons_ne_nil _ _
  flatten := by
    rw [← List.flatMap_def]
    exact flatMap_words_partition ws
  single g hg := by
    obtain ⟨g', hg', rfl⟩ := List.mem_map.1 hg
    obtain ⟨i, hstarts⟩ := exists_startsAt hg'
    exact hstarts.single
  opened g hg := by
    rw [← List.map_tail] at hg
    obtain ⟨g', hg', rfl⟩ := List.mem_map.1 hg
    exact ⟨g'.leading, rfl, isCommand_of_mem_tail ws g' hg'⟩

namespace Decomposes

/-- The groups behind the first decompose the words behind it. -/
theorem tail (h : Decomposes ws (g :: gs)) : Decomposes gs.flatten gs where
  ne_nil g' hg' := h.ne_nil g' (List.mem_cons_of_mem g hg')
  flatten := rfl
  single g' hg' := h.single g' (List.mem_cons_of_mem g hg')
  opened g' hg' := h.opened g' (List.mem_of_mem_tail hg')

/-- Only a command word ends a group. -/
theorem isCommand_head (h : Decomposes ws (g :: gs)) : ∀ w ∈ gs.flatten.head?, w.isCommand := by
  intro w hw
  cases gs with
  | nil => cases hw
  | cons g' gs =>
    obtain ⟨w', hw', hcommand⟩ := h.opened g' List.mem_cons_self
    rw [List.flatten_cons, List.head?_append, hw'] at hw
    cases hw
    exact hcommand

/-- The first group is the first word with the words up to the next command word. -/
theorem eq_cons {w : Word} (h : Decomposes (w :: ws) gs) :
    ∃ gs', gs = (w :: ws.takeWhile (!·.isCommand)) :: gs' := by
  cases gs with
  | nil => cases h.flatten
  | cons g gs =>
    obtain ⟨v, rest, rfl⟩ := List.exists_cons_of_ne_nil (h.ne_nil g List.mem_cons_self)
    have hflatten := h.flatten
    rw [List.flatten_cons, List.cons_append, List.cons.injEq] at hflatten
    obtain ⟨rfl, rfl⟩ := hflatten
    have hrest : ∀ w ∈ rest, (!w.isCommand) = true := by
      simpa using h.single (v :: rest) List.mem_cons_self
    have hnext : gs.flatten.takeWhile (!·.isCommand) = [] := by
      have hhead := h.isCommand_head
      cases hwords : gs.flatten with
      | nil => rfl
      | cons w ws =>
        rw [hwords] at hhead
        exact List.takeWhile_cons_of_neg (by simpa using hhead w rfl)
    exact ⟨gs, by rw [List.takeWhile_append_of_pos hrest, hnext, List.append_nil]⟩

/-- Some words decompose in one way only. -/
theorem unique (h : Decomposes ws gs) (h' : Decomposes ws gs') : gs = gs' := by
  induction gs generalizing ws gs' with
  | nil =>
    cases gs' with
    | nil => rfl
    | cons g gs' =>
      have hnil : (g :: gs').flatten = [] := h'.flatten.trans h.flatten.symm
      exact absurd (List.flatten_eq_nil_iff.1 hnil g List.mem_cons_self)
        (h'.ne_nil g List.mem_cons_self)
  | cons g gs ih =>
    cases ws with
    | nil =>
      exact absurd (List.flatten_eq_nil_iff.1 h.flatten g List.mem_cons_self)
        (h.ne_nil g List.mem_cons_self)
    | cons w ws =>
      obtain ⟨_, hgs⟩ := h.eq_cons
      obtain ⟨gs₁, rfl⟩ := h'.eq_cons
      obtain ⟨rfl, rfl⟩ := List.cons.inj hgs
      -- behind the same first group there are the same words left
      have hrest : gs.flatten = gs₁.flatten := by
        have hboth := h.flatten.trans h'.flatten.symm
        rwa [List.flatten_cons, List.flatten_cons, List.append_cancel_left_eq] at hboth
      rw [ih h.tail (hrest ▸ h'.tail)]

/-- Groups of words and of words behind them are groups of both, if the latter begin with a command
word. -/
theorem append (h : Decomposes ws gs) (h' : Decomposes ws' gs')
    (hw : ∃ w ∈ ws'.head?, w.isCommand) : Decomposes (ws ++ ws') (gs ++ gs') where
  ne_nil g hg := (List.mem_append.1 hg).elim (h.ne_nil g) (h'.ne_nil g)
  flatten := by rw [List.flatten_append, h.flatten, h'.flatten]
  single g hg := (List.mem_append.1 hg).elim (h.single g) (h'.single g)
  opened := by
    have hall : ∀ g ∈ gs', ∃ w ∈ g.head?, w.isCommand := by
      intro g hg
      cases gs' with
      | nil => cases hg
      | cons g' gs' =>
        rcases List.mem_cons.1 hg with rfl | hg
        · obtain ⟨v, rest, rfl⟩ := List.exists_cons_of_ne_nil (h'.ne_nil g List.mem_cons_self)
          obtain ⟨w, hw, hcommand⟩ := hw
          rw [← h'.flatten] at hw
          cases hw
          exact ⟨v, rfl, hcommand⟩
        · exact h'.opened g hg
    intro g hg
    cases gs with
    | nil => exact hall g (List.mem_of_mem_tail hg)
    | cons g' gs => exact (List.mem_append.1 hg).elim (h.opened g) (hall g)

end Decomposes

/-! ### Lines that are joined -/

theorem partition_eq_nil_iff : partition ws = [] ↔ ws = [] := by
  cases ws with
  | nil => exact iff_of_true rfl rfl
  | cons w ws => exact iff_of_false (List.cons_ne_nil _ _) (List.cons_ne_nil _ _)

/-- The groups of words before a command word end before it. -/
theorem partition_append (ws : List Word) (hw : ∃ w ∈ ws'.head?, w.isCommand) :
    partition (ws ++ ws') = partition ws ++ partition ws' := by
  have hboth := (decomposes_partition ws).append (decomposes_partition ws') hw
  have heq := (decomposes_partition (ws ++ ws')).unique hboth
  rw [← List.map_append] at heq
  exact List.map_injective_iff.2 words_injective heq

/-- If a line has the groups of both of its parts, neither of them empty, the second part begins
with a command word. -/
theorem isCommand_of_partition_append (h : partition (ws ++ ws') = partition ws ++ partition ws')
    (hws : ws ≠ []) (hws' : ws' ≠ []) : ∃ w ∈ ws'.head?, w.isCommand := by
  obtain ⟨w, rest, rfl⟩ := List.exists_cons_of_ne_nil hws
  obtain ⟨w', rest', rfl⟩ := List.exists_cons_of_ne_nil hws'
  have hmem : (split w' rest').1 ∈ (partition (w :: rest ++ w' :: rest')).tail := by
    rw [h]
    exact List.mem_append_right _ List.mem_cons_self
  have hcommand := isCommand_of_mem_tail _ _ hmem
  rw [split_fst] at hcommand
  exact ⟨w', rfl, hcommand⟩

/-- The groups of a line are the only decomposition of it. Two lines that are joined have the groups
of both exactly if one of them is empty or the second begins with a command word. -/
theorem partition_iff_decomposes :
    (∀ (ws : List Word) (gs : List (List Word)),
      Decomposes ws gs ↔ gs = (partition ws).map words) ∧
    ∀ ws ws' : List Word, partition (ws ++ ws') = partition ws ++ partition ws' ↔
      ws = [] ∨ ws' = [] ∨ ∃ w ∈ ws'.head?, w.isCommand := by
  refine ⟨fun ws gs => ⟨fun h => h.unique (decomposes_partition ws), ?_⟩, fun ws ws' => ⟨?_, ?_⟩⟩
  · rintro rfl
    exact decomposes_partition ws
  · intro h
    by_cases hws : ws = []
    · exact .inl hws
    by_cases hws' : ws' = []
    · exact .inr (.inl hws')
    · exact .inr (.inr (isCommand_of_partition_append h hws hws'))
  · rintro (rfl | rfl | hw)
    · rfl
    · rw [List.append_nil, partition_eq_nil_iff.2 rfl, List.append_nil]
    · exact partition_append ws hw

end Gcode.Group
