import Gcode.LineReader

/-!
Physical lines. They are defined apart from the reader: every line end of a text is written as a
line feed, the text is split at the line feeds, and an empty piece after the last of them is no
line. The reader cuts a text from the front instead, holds back a carriage return at the end and
keeps what has no end yet. `cutLines_append` says that this cutting can be interrupted anywhere,
and `completed_append_lastLine` that the lines it completes, with the pending text as the last one,
are the physical lines.
-/

namespace Gcode

open LineReader

/-- The text with every line end written as a line feed. -/
def unifyBreaks : List Char → List Char
  | [] => []
  | '\r' :: '\n' :: s => '\n' :: unifyBreaks s
  | c :: s => (if c = '\r' then '\n' else c) :: unifyBreaks s

/-- Leaves out an empty last line. -/
def dropEmptyLast (ls : List (List Char)) : List (List Char) :=
  if ls.getLast? = some [] then ls.dropLast else ls

/-- The physical lines of a text. Behind the last line end there is one only if anything stands
there. -/
def physicalLines (s : List Char) : List (List Char) :=
  dropEmptyLast ((unifyBreaks s).splitOn '\n')

/-- Puts a character in front of the first line. -/
def extendFirst (c : Char) : List (List Char) → List (List Char)
  | [] => [[c]]
  | l :: ls => (c :: l) :: ls

/-- A character that ends a line by itself, given the text behind it. -/
def EndsLine (c : Char) (s : List Char) : Prop :=
  c = '\n' ∨ c = '\r' ∧ s ≠ [] ∧ s.head? ≠ some '\n'

/-- A text is empty, a carriage return, or begins with a line end or a character of a line. -/
theorem byBreaks {motive : List Char → Prop} (nil : motive []) (held : motive ['\r'])
    (pair : ∀ s, motive s → motive ('\r' :: '\n' :: s))
    (single : ∀ c s, EndsLine c s → motive s → motive (c :: s))
    (plain : ∀ c s, c ≠ '\r' → c ≠ '\n' → motive s → motive (c :: s)) : ∀ s, motive s
  | [] => nil
  | ['\r'] => held
  | '\r' :: '\n' :: s => pair s (byBreaks nil held pair single plain s)
  | c :: s => by
    have ih := byBreaks nil held pair single plain s
    by_cases hn : c = '\n'
    · exact single c s (Or.inl hn) ih
    by_cases hr : c = '\r'
    · subst hr
      match s, ih with
      | [], _ => exact held
      | x :: s, ih =>
        by_cases hx : x = '\n'
        · subst hx; exact pair s (byBreaks nil held pair single plain s)
        · exact single '\r' (x :: s) (Or.inr ⟨rfl, by simp, by simpa using hx⟩) ih
    · exact plain c s hr hn ih

/-! ### Equations -/

theorem cutLines_pair (s : List Char) :
    cutLines ('\r' :: '\n' :: s) = ([] :: (cutLines s).1, (cutLines s).2) := rfl

theorem cutLines_single {c : Char} {s : List Char} (h : EndsLine c s) :
    cutLines (c :: s) = ([] :: (cutLines s).1, (cutLines s).2) := by
  have hc : c = '\r' ∨ c = '\n' := h.elim Or.inr fun h => Or.inl h.1
  rw [cutLines.eq_4]
  · exact if_pos hc
  · rintro rfl rfl; simp [EndsLine] at h
  · rintro t rfl rfl; simp [EndsLine] at h

theorem cutLines_plain {c : Char} {s : List Char} (hr : c ≠ '\r') (hn : c ≠ '\n') :
    cutLines (c :: s) =
      if (cutLines s).1 = [] then ([], c :: (cutLines s).2)
      else (extendFirst c (cutLines s).1, (cutLines s).2) := by
  have hc : ¬(c = '\r' ∨ c = '\n') := by simp [hr, hn]
  rw [cutLines.eq_4 c s (fun h => absurd h hr) (fun _ h => absurd h hr)]
  obtain ⟨ls, rest⟩ := cutLines s
  cases ls with
  | nil => exact if_neg hc
  | cons l ls => exact if_neg hc

theorem unifyBreaks_pair (s : List Char) :
    unifyBreaks ('\r' :: '\n' :: s) = '\n' :: unifyBreaks s := rfl

theorem unifyBreaks_single {c : Char} {s : List Char} (h : EndsLine c s) :
    unifyBreaks (c :: s) = '\n' :: unifyBreaks s := by
  rw [unifyBreaks.eq_3]
  · rcases h with rfl | ⟨rfl, -, -⟩ <;> rfl
  · rintro t rfl rfl; simp [EndsLine] at h

theorem unifyBreaks_plain {c : Char} {s : List Char} (hr : c ≠ '\r') :
    unifyBreaks (c :: s) = c :: unifyBreaks s := by
  rw [unifyBreaks.eq_3 c s (fun _ h => absurd h hr), if_neg hr]

theorem dropEmptyLast_nil_cons {ls : List (List Char)} (h : ls ≠ []) :
    dropEmptyLast ([] :: ls) = [] :: dropEmptyLast ls := by
  cases ls with
  | nil => exact absurd rfl h
  | cons l ls =>
    rw [dropEmptyLast, dropEmptyLast, List.getLast?_cons_cons, List.dropLast_cons_cons]
    split <;> rfl

theorem dropEmptyLast_modifyHead (c : Char) {ls : List (List Char)} (h : ls ≠ []) :
    dropEmptyLast (ls.modifyHead (c :: ·)) = extendFirst c (dropEmptyLast ls) := by
  match ls with
  | [] => exact absurd rfl h
  | [l] => cases l <;> simp [dropEmptyLast, extendFirst]
  | l :: l' :: ls =>
    simp only [dropEmptyLast, List.modifyHead_cons, List.getLast?_cons_cons,
      List.dropLast_cons_cons]
    split <;> rfl

theorem physicalLines_lineFeed {s t : List Char} (h : unifyBreaks s = '\n' :: unifyBreaks t) :
    physicalLines s = [] :: physicalLines t := by
  have hsplit : ('\n' :: unifyBreaks t).splitOn '\n' = [] :: (unifyBreaks t).splitOn '\n' := by
    rw [List.splitOn_cons_eq_if_modifyHead, if_pos (by decide)]
  rw [physicalLines, h, hsplit, dropEmptyLast_nil_cons (List.splitOn_ne_nil _ _), physicalLines]

theorem physicalLines_plain {c : Char} {s : List Char} (hr : c ≠ '\r') (hn : c ≠ '\n') :
    physicalLines (c :: s) = extendFirst c (physicalLines s) := by
  have hsplit : (c :: unifyBreaks s).splitOn '\n' =
      ((unifyBreaks s).splitOn '\n').modifyHead (c :: ·) := by
    rw [List.splitOn_cons_eq_if_modifyHead, if_neg (by simpa using hn)]
  rw [physicalLines, unifyBreaks_plain hr, hsplit,
    dropEmptyLast_modifyHead c (List.splitOn_ne_nil _ _), physicalLines]

theorem lastLine_cons {c : Char} (hr : c ≠ '\r') (s : List Char) :
    lastLine (c :: s) = extendFirst c (lastLine s) := by
  cases s with
  | nil => simp [lastLine, extendFirst, hr]
  | cons x s =>
    simp only [lastLine, List.isEmpty_cons, Bool.false_eq_true, if_false, List.getLast?_cons_cons,
      List.dropLast_cons_cons]
    split <;> rfl

/-! ### Cutting -/

/-- A text that completes no line is pending as a whole. -/
theorem cutLines_pending {s : List Char} (h : (cutLines s).1 = []) : (cutLines s).2 = s := by
  induction s using byBreaks with
  | nil => rfl
  | held => rfl
  | pair s ih => simp [cutLines_pair] at h
  | single c s hc ih => simp [cutLines_single hc] at h
  | plain c s hr hn ih =>
    rw [cutLines_plain hr hn] at h ⊢
    by_cases hs : (cutLines s).1 = []
    · rw [if_pos hs, ih hs]
    · cases hl : (cutLines s).1 <;> simp_all [extendFirst]

/-- Cutting may stop anywhere and go on with the pending text. -/
theorem cutLines_append (s t : List Char) :
    cutLines (s ++ t) =
      ((cutLines s).1 ++ (cutLines ((cutLines s).2 ++ t)).1,
        (cutLines ((cutLines s).2 ++ t)).2) := by
  induction s using byBreaks with
  | nil => rfl
  | held => rfl
  | pair s ih =>
    rw [List.cons_append, List.cons_append, cutLines_pair, cutLines_pair, ih]; rfl
  | single c s hc ih =>
    -- what ends a line still does with more text behind it
    have hc' : EndsLine c (s ++ t) := by
      rcases hc with hn | ⟨hr, hs, hx⟩
      · exact Or.inl hn
      · refine Or.inr ⟨hr, by simp [hs], ?_⟩
        obtain ⟨x, s, rfl⟩ := List.exists_cons_of_ne_nil hs
        simpa using hx
    rw [List.cons_append, cutLines_single hc', cutLines_single hc, ih]; rfl
  | plain c s hr hn ih =>
    by_cases hs : (cutLines s).1 = []
    · rw [cutLines_plain hr hn (s := s), if_pos hs, cutLines_pending hs]; rfl
    · have hst : (cutLines (s ++ t)).1 ≠ [] := by rw [ih]; simp [hs]
      rw [List.cons_append, cutLines_plain hr hn, cutLines_plain hr hn, if_neg hs, if_neg hst, ih]
      cases hl : (cutLines s).1 with
      | nil => exact absurd hl hs
      | cons l ls => rfl

/-- The complete lines of a text with what is pending are its physical lines. -/
theorem completed_append_lastLine (s : List Char) :
    (cutLines s).1 ++ lastLine (cutLines s).2 = physicalLines s := by
  induction s using byBreaks with
  | nil => rfl
  | held => rfl
  | pair s ih =>
    rw [cutLines_pair, physicalLines_lineFeed (unifyBreaks_pair s), ← ih]; rfl
  | single c s hc ih =>
    rw [cutLines_single hc, physicalLines_lineFeed (unifyBreaks_single hc), ← ih]; rfl
  | plain c s hr hn ih =>
    rw [cutLines_plain hr hn, physicalLines_plain hr hn, ← ih]
    cases hl : (cutLines s).1 with
    | nil => exact lastLine_cons hr _
    | cons l ls => rfl

/-- The physical lines of a text that comes after pending text: first those that are complete, then
those of what is left. -/
theorem physicalLines_append (s t : List Char) :
    physicalLines (s ++ t) = (cutLines s).1 ++ physicalLines ((cutLines s).2 ++ t) := by
  rw [← completed_append_lastLine, ← completed_append_lastLine, cutLines_append, List.append_assoc]

/-- A physical line goes over no line feed. -/
theorem not_mem_physicalLines (s : List Char) : ∀ l ∈ physicalLines s, '\n' ∉ l := by
  induction s using byBreaks with
  | nil => intro l hl; cases hl
  | held => decide
  | pair s ih =>
    rw [physicalLines_lineFeed (unifyBreaks_pair s)]
    exact List.forall_mem_cons.2 ⟨List.not_mem_nil, ih⟩
  | single c s hc ih =>
    rw [physicalLines_lineFeed (unifyBreaks_single hc)]
    exact List.forall_mem_cons.2 ⟨List.not_mem_nil, ih⟩
  | plain c s hr hn ih =>
    rw [physicalLines_plain hr hn]
    cases hs : physicalLines s with
    | nil => simpa [extendFirst] using Ne.symm hn
    | cons l ls =>
      rw [hs] at ih
      obtain ⟨hl, hls⟩ := List.forall_mem_cons.1 ih
      refine List.forall_mem_cons.2 ⟨?_, hls⟩
      simpa [Ne.symm hn] using hl

/-- What is left of a text after cutting completes no line. -/
theorem cutLines_rest (s : List Char) : (cutLines (cutLines s).2).1 = [] := by
  have h := congrArg Prod.fst (cutLines_append s [])
  simp only [List.append_nil] at h
  exact List.self_eq_append_right.mp h

end Gcode
