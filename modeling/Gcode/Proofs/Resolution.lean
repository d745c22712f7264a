import Gcode.Proofs.Failure
import Mathlib.Data.List.Forall2
import Mathlib.Data.List.Induction
import Mathlib.Data.List.TakeWhile

/-!
Modal resolution of whole programs. What a line means depends on all lines before it, but only
through the last command word among them. Here this is said of the words alone, without groups and
without a state: a group starts at the first word of a line and at every command word, its code is
that of the last command word up to its start, and its arguments are the words up to the next start.
Main statement: lines that are resolved one after the other give just these commands and leave the
code of the last command word of all (`resolve_program`).
-/

namespace Gcode

open Act

/-! ### What the words say -/

/-- The code of the last command word among some words, or the one before them. -/
def codeAfter (modal : String) (ws : List Word) : String :=
  ((ws.filter Word.isCommand).getLast?.map Word.code).getD modal

/-- The places of the command words. -/
def commandPlaces (ws : List Word) : List Nat :=
  (List.range ws.length).filter fun i => ws[i]?.any Word.isCommand

/-- The places where a group starts: the first word and every command word. -/
def groupStarts (ws : List Word) : List Nat :=
  (List.range ws.length).filter fun i => i = 0 || ws[i]?.any Word.isCommand

/-- The words that are arguments in the group that starts at a place. -/
def argumentsAt (ws : List Word) (i : Nat) : List Word :=
  ws[i]?.toList.filter (!·.isCommand) ++ (ws.drop (i + 1)).takeWhile (!·.isCommand)

/-- The value that some words give a letter last. -/
def lastValue? (letter : String) (ws : List Word) : Option Value :=
  (ws.filter fun w => w.letter = letter).getLast?.map (·.value)

/-- Arguments that hold the letters of some words in order of first occurrence, each with the value
given last, and nothing else. -/
structure Args.GivenBy (args : Args) (ws : List Word) : Prop where
  names : args.names = (ws.map (·.letter)).eraseDups
  get? : ∀ letter, args.get? letter = lastValue? letter ws

/-- The command of the group that starts at a place of a line, where the words of earlier lines and
the modal command before all of them are given. -/
structure Command.MeantBy (c : Command) (modal : String) (earlier ws : List Word) (i : Nat) :
    Prop where
  code : c.code = codeAfter modal (earlier ++ ws.take (i + 1))
  args : c.args.GivenBy (argumentsAt ws i)

/-! ### Codes -/

theorem codeAfter_append (modal : String) (ws ws' : List Word) :
    codeAfter modal (ws ++ ws') = codeAfter (codeAfter modal ws) ws' := by
  rw [codeAfter, List.filter_append, List.getLast?_append]
  rcases h : (ws'.filter Word.isCommand).getLast? with - | w
  · simp [codeAfter, h]
  · simp [codeAfter, h]

theorem codeAfter_of_not_command {ws : List Word} (h : ∀ w ∈ ws, ¬ w.isCommand) (modal : String) :
    codeAfter modal ws = modal := by
  have hnone : ws.filter Word.isCommand = [] := List.filter_eq_nil_iff.2 h
  rw [codeAfter, hnone]
  rfl

/-! ### Arguments -/

namespace Table

variable {α : Type}

theorem map_put (name : String) (value : α) (es : List (String × α)) :
    (put name value es).map (·.1) =
      if name ∈ es.map (·.1) then es.map (·.1) else es.map (·.1) ++ [name] := by
  induction es with
  | nil => simp [put]
  | cons e es ih =>
    by_cases he : e.1 = name
    · simp [put, he]
    · have hne : name ≠ e.1 := fun h => he h.symm
      rw [put, if_neg he, List.map_cons, ih]
      by_cases hmem : name ∈ es.map (·.1)
      · rw [if_pos hmem, List.map_cons, if_pos (List.mem_cons_of_mem _ hmem)]
      · have hmem' : name ∉ e.1 :: es.map (·.1) := by
          rintro (- | ⟨-, h⟩)
          · exact hne rfl
          · exact hmem h
        rw [if_neg hmem, List.map_cons, if_neg hmem', List.cons_append]

theorem names_set (t : Table α) (name : String) (value : α) :
    (t.set name value).names = if name ∈ t.names then t.names else t.names ++ [name] :=
  map_put name value t.entries

theorem ofList_append_singleton (es : List (String × α)) (e : String × α) :
    ofList (es ++ [e]) = (ofList es).set e.1 e.2 := by
  simp [ofList]

/-- A table of settings has their names in order of first occurrence. -/
theorem names_ofList (es : List (String × α)) : (ofList es).names = (es.map (·.1)).eraseDups := by
  induction es using List.reverseRecOn with
  | nil => rfl
  | append_singleton es e ih =>
    rw [ofList_append_singleton, names_set, ih, List.map_append, List.eraseDups_append]
    by_cases hmem : e.1 ∈ es.map (·.1)
    · have hold : [e.1].removeAll (es.map (·.1)) = [] := by simp [List.removeAll, hmem]
      rw [List.map_singleton, if_pos (by simpa using hmem), hold, List.eraseDups_nil,
        List.append_nil]
    · have hnew : [e.1].removeAll (es.map (·.1)) = [e.1] := by simp [List.removeAll, hmem]
      rw [List.map_singleton, if_neg (by simpa using hmem), hnew]
      rfl

/-- A table of settings has for each name the value set last. -/
theorem get?_ofList (es : List (String × α)) (name : String) :
    (ofList es).get? name = (es.filter fun e => e.1 = name).getLast?.map (·.2) := by
  induction es using List.reverseRecOn with
  | nil => rfl
  | append_singleton es e ih =>
    rw [ofList_append_singleton, get?_set, ih, List.filter_append]
    by_cases he : e.1 = name
    · simp [he]
    · simp [he]

theorem mem_put {name : String} {value : α} {es : List (String × α)} {e : String × α}
    (h : e ∈ put name value es) : e = (name, value) ∨ e ∈ es := by
  induction es with
  | nil => exact .inl (List.mem_singleton.1 h)
  | cons e' es ih =>
    rw [put] at h
    split at h
    · exact (List.mem_cons.1 h).imp_right (List.mem_cons_of_mem _)
    · rcases List.mem_cons.1 h with rfl | h
      · exact .inr List.mem_cons_self
      · exact (ih h).imp_right (List.mem_cons_of_mem _)

/-- What is in a table of some settings is one of them. -/
theorem mem_ofList {es : List (String × α)} {e : String × α} (h : e ∈ (ofList es).entries) :
    e ∈ es := by
  induction es using List.reverseRecOn with
  | nil => exact h
  | append_singleton es e' ih =>
    rw [ofList_append_singleton] at h
    rcases mem_put h with rfl | h
    · exact List.mem_append_right _ (List.mem_singleton.2 rfl)
    · exact List.mem_append_left _ (ih h)

end Table

theorem Args.givenBy_ofWords (ws : List Word) : (Args.ofWords ws).GivenBy ws where
  names := by
    rw [Args.ofWords, Table.names_ofList, List.map_map]
    rfl
  get? letter := by
    rw [Args.ofWords, Table.get?_ofList, List.filter_map, List.getLast?_map, Option.map_map]
    rfl

/-! ### Groups -/

theorem commandPlaces_cons (w : Word) (ws : List Word) :
    commandPlaces (w :: ws) =
      if w.isCommand then 0 :: (commandPlaces ws).map (· + 1)
      else (commandPlaces ws).map (· + 1) := by
  rw [commandPlaces, List.length_cons, List.range_succ_eq_map, List.filter_cons, List.filter_map]
  rfl

theorem groupStarts_cons (w : Word) (ws : List Word) :
    groupStarts (w :: ws) = 0 :: (commandPlaces ws).map (· + 1) := by
  rw [groupStarts, List.length_cons, List.range_succ_eq_map, List.filter_cons_of_pos (by simp),
    List.filter_map]
  rfl

theorem length_commandPlaces (ws : List Word) :
    (commandPlaces ws).length = ws.countP Word.isCommand := by
  induction ws with
  | nil => rfl
  | cons w ws ih =>
    rw [commandPlaces_cons, List.countP_cons]
    by_cases hw : w.isCommand
    · simp [hw, ih]
    · simp [hw, ih]

/-- A line has as many groups as command words, and one more if it begins with another word. -/
theorem length_groupStarts (ws : List Word) :
    (groupStarts ws).length =
      ws.countP Word.isCommand + if ws.head?.any (!·.isCommand) then 1 else 0 := by
  cases ws with
  | nil => rfl
  | cons w ws =>
    rw [groupStarts_cons, List.length_cons, List.length_map, length_commandPlaces, List.countP_cons]
    by_cases hw : w.isCommand
    · simp [hw]
    · simp [hw]

namespace Group

/-- A group ends before the next command word. -/
theorem split_fst (leading : Word) (ws : List Word) :
    (split leading ws).1 = ⟨leading, ws.takeWhile (!·.isCommand)⟩ := by
  induction ws generalizing leading with
  | nil => rfl
  | cons w ws ih =>
    by_cases hw : w.isCommand
    · simp [split, hw]
    · simp [split, hw, ih, words]

theorem split_snd_cons (leading w : Word) (ws : List Word) :
    (split leading (w :: ws)).2 =
      if w.isCommand then (split w ws).1 :: (split w ws).2 else (split w ws).2 := by
  by_cases hw : w.isCommand
  · simp [split, hw]
  · simp [split, hw]

/-- The group that starts at a place of a line. -/
structure StartsAt (ws : List Word) (i : Nat) (g : Group) : Prop where
  leading : ws[i]? = some g.leading
  rest : g.rest = (ws.drop (i + 1)).takeWhile (!·.isCommand)

theorem split_fst_starts (w : Word) (ws : List Word) : StartsAt (w :: ws) 0 (split w ws).1 := by
  rw [split_fst]
  exact ⟨rfl, rfl⟩

/-- After the first group there is one for each command word. -/
theorem split_snd_starts (w : Word) (ws : List Word) :
    List.Forall₂ (fun i g => StartsAt (w :: ws) i g ∧ g.leading.isCommand)
      ((commandPlaces ws).map (· + 1)) (split w ws).2 := by
  rw [List.forall₂_map_left_iff]
  induction ws generalizing w with
  | nil => exact .nil
  | cons w' ws ih =>
    have hrest : List.Forall₂ (fun i g => StartsAt (w :: w' :: ws) (i + 1) g ∧ g.leading.isCommand)
        ((commandPlaces ws).map (· + 1)) (split w' ws).2 := by
      rw [List.forall₂_map_left_iff]
      exact (ih w').imp fun i g h => ⟨⟨h.1.leading, h.1.rest⟩, h.2⟩
    rw [split_snd_cons, commandPlaces_cons]
    by_cases hw : w'.isCommand
    · rw [if_pos hw, if_pos hw, split_fst]
      exact .cons ⟨⟨rfl, rfl⟩, hw⟩ hrest
    · rwa [if_neg hw, if_neg hw]

/-- The groups of a line start at its places. -/
theorem partition_starts (ws : List Word) :
    List.Forall₂ (StartsAt ws) (groupStarts ws) (partition ws) := by
  cases ws with
  | nil => exact .nil
  | cons w ws =>
    rw [groupStarts_cons]
    exact .cons (split_fst_starts w ws) ((split_snd_starts w ws).imp fun i g h => h.1)

/-- Every group of a line starts at a place of it. -/
theorem exists_startsAt {ws : List Word} {g : Group} (hg : g ∈ partition ws) :
    ∃ i, StartsAt ws i g := by
  obtain ⟨k, hk, rfl⟩ := List.mem_iff_getElem.1 hg
  have hstarts := (partition_starts ws).get ((partition_starts ws).length_eq ▸ hk) hk
  exact ⟨_, hstarts⟩

/-- A group whose command word is its first word at most. -/
def Single (g : Group) : Prop := ∀ w ∈ g.rest, ¬ w.isCommand

theorem StartsAt.single {ws : List Word} {i : Nat} {g : Group} (h : StartsAt ws i g) :
    g.Single := by
  intro w hw
  rw [h.rest] at hw
  simpa using List.mem_takeWhile_imp hw

/-- The words of a group that are arguments are those that its command is given. -/
theorem StartsAt.argumentsAt_eq {ws : List Word} {i : Nat} {g : Group} (h : StartsAt ws i g) :
    argumentsAt ws i = if g.leading.isCommand then g.rest else g.words := by
  rw [argumentsAt, h.leading, ← h.rest]
  by_cases hg : g.leading.isCommand
  · simp [hg]
  · simp [hg, words]

theorem args_resolve (g : Group) (modal : String) :
    (g.resolve modal).args = Args.ofWords (if g.leading.isCommand then g.rest else g.words) := by
  rw [resolve]
  split <;> rfl

/-- The code of a group is what its words make of the modal command. -/
theorem code_resolve {g : Group} (hg : g.Single) (modal : String) :
    (g.resolve modal).code = codeAfter modal g.words := by
  have hrest : codeAfter (codeAfter modal [g.leading]) g.rest = codeAfter modal [g.leading] :=
    codeAfter_of_not_command hg _
  rw [words, ← List.singleton_append, codeAfter_append, hrest, resolve]
  by_cases hlead : g.leading.isCommand
  · simp [codeAfter, hlead]
  · simp [codeAfter, hlead]

end Group

/-! ### Commands -/

open Gcode.Group

/-- A group is resolved to the command that its words mean, if the modal command before it is the
code of the last command word before it. -/
theorem Group.StartsAt.meantBy {ws : List Word} {i : Nat} {g : Group} (h : StartsAt ws i g)
    (modal : String) (earlier : List Word) :
    (g.resolve (codeAfter modal (earlier ++ ws.take i))).MeantBy modal earlier ws i where
  code := by
    have htake : ws.take (i + 1) = ws.take i ++ [g.leading] := by
      rw [List.take_add_one, h.leading]
      rfl
    rw [code_resolve h.single, htake, ← List.append_assoc, codeAfter_append _ _ [_], words,
      ← List.singleton_append, codeAfter_append]
    exact codeAfter_of_not_command h.single _
  args := by
    rw [args_resolve, h.argumentsAt_eq]
    exact Args.givenBy_ofWords _

/-- A group with a command word does not depend on the modal command. -/
theorem Group.resolve_of_command {g : Group} (hg : g.leading.isCommand) (modal modal' : String) :
    g.resolve modal = g.resolve modal' := by
  rw [resolve, resolve, if_pos hg, if_pos hg]

namespace Command

theorem ofGroups_meantBy {modal : String} {earlier ws : List Word} {is : List Nat}
    {gs : List Group} (h : List.Forall₂ (fun i g => StartsAt ws i g ∧ g.leading.isCommand) is gs) :
    ∀ current : String, List.Forall₂ (fun i c => MeantBy c modal earlier ws i) is
      (ofGroups current gs) := by
  induction h with
  | nil => intro current; exact .nil
  | cons hfirst _ ih =>
    intro current
    refine .cons ?_ (ih _)
    rw [resolve_of_command hfirst.2]
    exact hfirst.1.meantBy modal earlier

/-- The commands of a line are those that its words and all words before it mean. -/
theorem ofWords_meantBy (modal : String) (earlier ws : List Word) :
    List.Forall₂ (fun i c => MeantBy c modal earlier ws i) (groupStarts ws)
      (ofWords (codeAfter modal earlier) ws) := by
  cases ws with
  | nil => exact .nil
  | cons w ws =>
    have hfirst : MeantBy ((split w ws).1.resolve (codeAfter modal earlier)) modal earlier
        (w :: ws) 0 := by
      simpa using (split_fst_starts w ws).meantBy modal earlier
    -- only the first group can begin with another word; the rest do not ask for the modal command
    rw [groupStarts_cons]
    exact .cons hfirst (ofGroups_meantBy (split_snd_starts w ws) _)

/-- The modal command after the groups of a line is what their words make of the one before. -/
theorem modalAfter_ofGroups {ws : List Word} {is : List Nat} {gs : List Group}
    (h : List.Forall₂ (StartsAt ws) is gs) : ∀ modal : String,
      modalAfter modal (ofGroups modal gs) = codeAfter modal (gs.flatMap words) := by
  induction h with
  | nil => intro modal; rfl
  | cons hfirst _ ih =>
    intro modal
    rw [ofGroups, modalAfter, ih, List.flatMap_cons, codeAfter_append, code_resolve hfirst.single]

theorem modalAfter_ofWords (modal : String) (ws : List Word) :
    modalAfter modal (ofWords modal ws) = codeAfter modal ws := by
  rw [ofWords, modalAfter_ofGroups (partition_starts ws), flatMap_words_partition]

/-- The commands of each of some lines, given the modal command before the first. -/
def ofProgram (modal : String) : List (List Word) → List (List Command)
  | [] => []
  | ws :: program => ofWords modal ws :: ofProgram (codeAfter modal ws) program

theorem length_ofProgram (program : List (List Word)) : ∀ modal : String,
    (ofProgram modal program).length = program.length := by
  induction program with
  | nil => intro modal; rfl
  | cons ws program ih => intro modal; rw [ofProgram, List.length_cons, ih, List.length_cons]

/-- A line is resolved from the modal command that the lines before it leave. -/
theorem getElem?_ofProgram (program : List (List Word)) : ∀ (modal : String) (i : Nat),
    (ofProgram modal program)[i]? =
      program[i]?.map (ofWords (codeAfter modal (program.take i).flatten)) := by
  induction program with
  | nil => intro modal i; rfl
  | cons ws program ih =>
    intro modal i
    cases i with
    | zero => rfl
    | succ i =>
      rw [ofProgram, List.getElem?_cons_succ, ih, List.getElem?_cons_succ, List.take_succ_cons,
        List.flatten_cons, codeAfter_append]

end Command

/-! ### Lines one after the other -/

namespace Interpreter

theorem resolveGroup_eq (g : Group) (m : Machine) :
    ∃ log, resolveGroup g m =
      .ok (g.resolve m.modal) { m with modal := (g.resolve m.modal).code, log } := by
  obtain ⟨log, hset⟩ : ∃ log, setModal (g.resolve m.modal).code m =
      .ok () { m with modal := (g.resolve m.modal).code, log } := by
    rw [setModal, get_bind]
    dsimp only
    split <;> exact ⟨_, rfl⟩
  refine ⟨log, ?_⟩
  rw [resolveGroup, get_bind]
  exact bind_ok hset _

theorem resolveGroups_eq : ∀ (gs : List Group) (m : Machine),
    ∃ log, resolveGroups gs m = .ok (Command.ofGroups m.modal gs)
      { m with modal := Command.modalAfter m.modal (Command.ofGroups m.modal gs), log }
  | [], m => ⟨m.log, rfl⟩
  | g :: gs, m => by
    obtain ⟨log, hfirst⟩ := resolveGroup_eq g m
    obtain ⟨log', hrest⟩ := resolveGroups_eq gs { m with modal := (g.resolve m.modal).code, log }
    refine ⟨log', ?_⟩
    rw [resolveGroups, bind_ok hfirst, bind_ok hrest]
    rfl

/-- Resolving a line gives its commands and changes nothing but the modal command and the log. -/
theorem resolve_eq (ws : List Word) (m : Machine) :
    ∃ log, resolve ws m =
      .ok (Command.ofWords m.modal ws) { m with modal := codeAfter m.modal ws, log } := by
  obtain ⟨log, h⟩ := resolveGroups_eq (Group.partition ws) m
  refine ⟨log, ?_⟩
  rw [resolve, h, ← Command.modalAfter_ofWords]
  rfl

theorem mapM_resolve_eq : ∀ (program : List (List Word)) (m : Machine),
    ∃ log, program.mapM resolve m = .ok (Command.ofProgram m.modal program)
      { m with modal := codeAfter m.modal program.flatten, log }
  | [], m => ⟨m.log, rfl⟩
  | ws :: program, m => by
    obtain ⟨log, hfirst⟩ := resolve_eq ws m
    obtain ⟨log', hrest⟩ := mapM_resolve_eq program
      { m with modal := codeAfter m.modal ws, log }
    refine ⟨log', ?_⟩
    rw [List.mapM_cons, bind_ok hfirst, bind_ok hrest, List.flatten_cons, codeAfter_append]
    rfl

end Interpreter

/-- Lines that are resolved one after the other, from whatever modal command, give for each line as
many commands as it has command words, and one more if it begins with another word. Each command has
the code of the last command word at or before the start of its group, on its own line or an earlier
one, and the arguments of its group. Last the modal command is the code of the last command word of
all. -/
theorem resolve_program (program : List (List Word)) (m : Machine) :
    ∃ css log, program.mapM Interpreter.resolve m =
        .ok css { m with modal := codeAfter m.modal program.flatten, log } ∧
      css.length = program.length ∧
      ∀ i ws, program[i]? = some ws → ∃ cs, css[i]? = some cs ∧
        cs.length = ws.countP Word.isCommand + (if ws.head?.any (!·.isCommand) then 1 else 0) ∧
        List.Forall₂ (fun j c => Command.MeantBy c m.modal (program.take i).flatten ws j)
          (groupStarts ws) cs := by
  obtain ⟨log, hrun⟩ := Interpreter.mapM_resolve_eq program m
  refine ⟨_, log, hrun, Command.length_ofProgram program m.modal, ?_⟩
  intro i ws hws
  have hmeant := Command.ofWords_meantBy m.modal (program.take i).flatten ws
  refine ⟨_, ?_, ?_, hmeant⟩
  · rw [Command.getElem?_ofProgram, hws]
    rfl
  · rw [← hmeant.length_eq, length_groupStarts]

/-- Two lines. The first continues a command before it goes on to `G1`, and gives `X` twice there;
the second continues `G1`. -/
def mixedLines : List (List Word) :=
  [[⟨"X", .int 1⟩, ⟨"G", .int 1⟩, ⟨"X", .int 2⟩, ⟨"Y", .int 3⟩, ⟨"X", .int 4⟩], [⟨"Z", .int 5⟩]]

theorem resolve_program_mixed :
    ∃ css log, mixedLines.mapM Interpreter.resolve { modal := "G0" } =
        .ok css { modal := "G1", log } ∧
      ∃ a b c, css = [[a, b], [c]] ∧ a.code = "G0" ∧ b.code = "G1" ∧ b.args.names = ["X", "Y"] ∧
        b.args.get? "X" = some (.int 4) ∧ c.code = "G1" := by
  obtain ⟨css, log, hrun, hlength, hlines⟩ := resolve_program mixedLines { modal := "G0" }
  obtain ⟨cs, hcs, -, hmeant⟩ := hlines 0 _ rfl
  obtain ⟨cs', hcs', -, hmeant'⟩ := hlines 1 _ rfl
  rw [show groupStarts _ = [0, 1] by decide] at hmeant
  rw [show groupStarts _ = [0] by decide] at hmeant'
  rcases hmeant with - | ⟨ha, - | ⟨hb, - | -⟩⟩
  rcases hmeant' with - | ⟨hc, - | -⟩
  refine ⟨css, log, hrun, _, _, _, ?_, ha.code, hb.code, hb.args.names, hb.args.get? "X", hc.code⟩
  obtain ⟨cs, cs', rfl⟩ := List.length_eq_two.1 hlength
  cases hcs
  cases hcs'
  rfl

end Gcode
