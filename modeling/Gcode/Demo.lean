import Gcode.Session
import Gcode.Settings

/-!
Two small programs that use the library. The first carries out a fixed program at once and prints
every command; the second loads a file in the background, prints its progress and counts the motion
commands. What they print is read off the journal of the calls that were made.
-/

namespace Gcode.Demo

/-- What a program prints, and the code it exits with, if it gives one. -/
structure Run where
  output : List String
  exitCode : Option Nat
  deriving DecidableEq, Repr

/-- The printed text. -/
def Run.text (r : Run) : String := String.join (r.output.map (· ++ "\n"))

/-! ### A program carried out at once -/

/-- The program of the first demonstration. -/
def program : String :=
  "G17 G21 G90\nG0 X0 Y0 Z5\nG1 Z-1 F100\nX10\nY10\nX0\nY0\nG0 Z5\nM30\n"

/-- A dialect with one method for each of some codes. -/
def dialectOf (codes : List String) : Dialect where
  table := Table.ofList (codes.map fun c => (c, c))
  attributes := Table.ofList (codes.map fun c => (c, .method ⟨"Demo", c, none⟩))

/-- What a call in the first demonstration prints. -/
def printed : Entry → List String
  | .handler _ _ => ["units: mm"]
  | .method m args =>
    if m.name = "G0" then ["rapid    " ++ (Args.toLiteral args).render]
    else if m.name = "G1" then ["linear   " ++ (Args.toLiteral args).render]
    else ["program end"]
  | _ => []

/-- The first demonstration. -/
def immediate (settings : Settings) : Run :=
  let it : Interpreter :=
    { strictByDefault := settings.strict, dialect := dialectOf ["G0", "G1", "M30"] }
  let start : Machine :=
    { strict := it.strictByDefault, handlers := Table.ofList [("G21", .callable "units")] }
  match it.loadString (.text program) none start with
  | .ok lines m =>
    ⟨m.journal.flatMap printed ++
      [toString lines.length ++ " lines, modal command at end: " ++ m.modal], none⟩
  | .error f m => ⟨m.journal.flatMap printed ++ [f.text], some 1⟩

/-! ### A file loaded in the background -/

/-- The motion commands that are counted. -/
def motions : List String := ["G0", "G1", "G2", "G3"]

/-- Counts the calls of handlers, in the order of the first call of each. -/
def counts (journal : List Entry) : Table Nat :=
  journal.foldl (fun t e =>
    match e with
    | .handler id _ => t.set id ((t.get? id).getD 0 + 1)
    | _ => t) ∅

/-- What a notice in the second demonstration prints. -/
def notice : Entry → List String
  | .listener _ [.progress consumed total] =>
    ["progress: " ++ toString consumed ++ "/" ++ total.display]
  | .listener _ [.results ls] => ["end: " ++ toString ls.length ++ " lines"]
  | _ => []

/-- How the second demonstration ends. -/
def conclusion (journal : List Entry) : Entry → Option (String × Nat)
  | .callback _ (.error f) => some ("failed: " ++ f.text, 1)
  | .callback _ (.ok _) =>
    let total := (counts journal).entries.map fun e => (e.1, Literal.int e.2)
    some ("motion commands: " ++ (Literal.dict total).render, 0)
  | _ => none

/-- Loads a file in the background and waits for it. -/
def loadInBackground (it : Interpreter) (path : String) : Act Unit := do
  it.schedule (.file (.text path)) (some "done")
  it.listen Event.progress.name "progress" false
  it.listen Event.ended.name "end" false
  it.settle Session.patience

/-- The second demonstration, under the name it was called by and with the arguments of the command
line. -/
def background (settings : Settings) (disk : Disk) (called : String) : List String → Run
  | [path] =>
    let it : Interpreter :=
      { strictByDefault := settings.strict, chunkSize := settings.chunkSize,
        encoding := settings.encoding, disk }
    let handlers := Table.ofList (motions.map fun c => (c, Handler.callable c))
    let m := match loadInBackground it path { strict := it.strictByDefault, handlers } with
      | .ok _ m => m
      | .error _ m => m
    let last := m.journal.findSome? (conclusion m.journal)
    ⟨m.journal.flatMap notice ++ (last.map (·.1)).toList, some ((last.map (·.2)).getD 1)⟩
  | _ => ⟨["usage: " ++ called ++ " FILE"], some 2⟩

end Gcode.Demo
