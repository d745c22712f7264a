import Gcode.Word

/-!
Commands. The words of a line fall into groups, one for each `G` or `M` word; words before the first
of these form a group of their own. A group resolves to a command against the modal command, that
is, the code of the last command before it: a group that begins with a command word sets the code,
any other continues it.
-/

namespace Gcode

/-- A code such as `G1` with its arguments. -/
structure Command where
  code : String
  args : Args
  deriving DecidableEq, Repr

/-- The text of a command: the code, then every argument after a space. -/
def Command.render (c : Command) : String :=
  c.args.entries.foldl (fun s e => s ++ " " ++ e.1 ++ e.2.render) c.code

/-- The words of one command. -/
structure Group where
  leading : Word
  rest : List Word
  deriving DecidableEq, Repr

namespace Group

/-- The words of a group in order. -/
def words (g : Group) : List Word := g.leading :: g.rest

/-- A group of given words; there must be one at least. -/
def ofWords? : List Word → Option Group
  | [] => none
  | w :: ws => some ⟨w, ws⟩

/-- The group from its first word on and the groups after it. Only a command word ends a group. -/
def split (leading : Word) : List Word → Group × List Group
  | [] => (⟨leading, []⟩, [])
  | w :: ws =>
    let (g, gs) := split w ws
    if w.isCommand then (⟨leading, []⟩, g :: gs) else (⟨leading, g.words⟩, gs)

/-- The groups of a line. -/
def partition : List Word → List Group
  | [] => []
  | w :: ws =>
    let (g, gs) := split w ws
    g :: gs

/-- Splitting loses no word. -/
theorem words_split (leading : Word) (ws : List Word) :
    (split leading ws).1.words ++ (split leading ws).2.flatMap words = leading :: ws := by
  induction ws generalizing leading with
  | nil => rfl
  | cons w ws ih =>
    have h := ih w
    by_cases hw : w.isCommand <;> simp_all [split, words]

/-- The groups of a line hold its words in order. -/
theorem flatMap_words_partition (ws : List Word) : (partition ws).flatMap words = ws := by
  cases ws with
  | nil => rfl
  | cons w ws => exact words_split w ws

/-- The command of a group, given the modal command before it. Its code is the modal command after
it. -/
def resolve (g : Group) (modal : String) : Command :=
  if g.leading.isCommand then ⟨g.leading.code, Args.ofWords g.rest⟩
  else ⟨modal, Args.ofWords g.words⟩

end Group

/-- The commands of a list of groups, each resolved against the one before it. -/
def Command.ofGroups (modal : String) : List Group → List Command
  | [] => []
  | g :: gs =>
    let c := g.resolve modal
    c :: ofGroups c.code gs

/-- The commands of a line, given the modal command before it. -/
def Command.ofWords (modal : String) (ws : List Word) : List Command :=
  Command.ofGroups modal (Group.partition ws)

end Gcode
