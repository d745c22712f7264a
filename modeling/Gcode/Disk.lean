import Gcode.Fault

/-!
Files. A disk holds files and directories under the working directory; nothing else on the system is
known apart from the directories above. A path is a sequence of names, which is followed from the
working directory; every name but the last must lead to a directory.
-/

namespace Gcode

open Gcode.Text

/-- The text of names that lead from one directory to another. -/
abbrev Names := List Bytes

/-- What is on the disk, by the names that lead to it from the working directory. -/
structure Disk where
  files : List (Names × Bytes) := []
  dirs : List Names := []
  /-- Is the working directory the root of the disk? -/
  atRoot : Bool := false
  deriving Repr

/-- A path as a caller gives it. -/
inductive Path where
  | text (s : String)
  | bytes (b : Bytes)
  deriving DecidableEq, Repr

/-- The pieces of a list between the places where an element stands. -/
def pieces {α : Type} [DecidableEq α] (mark : α) : List α → List (List α)
  | [] => [[]]
  | x :: xs =>
    if x = mark then [] :: pieces mark xs
    else
      match pieces mark xs with
      | [] => [[x]]
      | p :: ps => (x :: p) :: ps

/-- The names between the slashes of a path. -/
def splitSlashes (path : Bytes) : List Bytes := pieces 0x2F path

namespace Path

/-- The bytes of a path. -/
def toBytes : Path → Bytes
  | .text s => utf8Bytes s
  | .bytes b => b

/-- A path in messages. -/
def label : Path → String
  | .text s => s
  | .bytes b => String.ofList (quoteBytes b)

/-- The written form of a path. -/
def shown : Path → String
  | .text s => Literal.quoted s
  | .bytes b => String.ofList (quoteBytes b)

/-- The path that a caller means. -/
def ofLiteral : Literal → Except Fault Path
  | .null => .error .noPath
  | .text s => if s.isEmpty then .error .noPath else .ok (.text s)
  | .bytes b => .ok (.bytes b)
  | .path p => .ok (.text p)
  | x => .error (.badPath x.render)

/-- A path object's text: no empty names, no names `.` but where nothing else is left. Two slashes
at the start are kept, three or more are one. -/
def tidy (s : String) : String :=
  let lead := (s.toList.takeWhile (· == '/')).length
  let root := if lead = 0 then "" else if lead = 2 then "//" else "/"
  let names := ((pieces '/' s.toList).map String.ofList).filter fun n => n ≠ "" ∧ n ≠ "."
  let body := "/".intercalate names
  if root.isEmpty && body.isEmpty then "." else root ++ body

end Path

/-- Where a path has led so far. -/
inductive Place where
  /-- A place under the working directory. -/
  | inside (names : Names)
  /-- A directory above the working directory, or one that cannot be left upwards. -/
  | outside
  deriving DecidableEq, Repr

namespace Disk

/-- The contents of a file. -/
def file? (d : Disk) (names : Names) : Option Bytes :=
  (d.files.find? fun f => f.1 = names).map (·.2)

/-- Is there a directory? Files and directories make those above them. -/
def isDir (d : Disk) (names : Names) : Bool :=
  names.isEmpty || d.dirs.any (names.isPrefixOf ·) ||
    d.files.any fun f => names.isPrefixOf f.1 && decide (names.length < f.1.length)

/-- The longest name of a file. -/
def maxName : Nat := 255

/-- The longest path. -/
def maxPath : Nat := 4095

/-- Goes one name further. -/
def enter (d : Disk) (place : Place) (name : Bytes) : Except FileFault Place :=
  match place with
  | .outside =>
    if name = [] ∨ name = [0x2E] ∨ name = [0x2E, 0x2E] then .ok .outside
    else if maxName < name.length then .error .nameTooLong
    else .error .missing
  | .inside names =>
    if !d.isDir names then .error .notDirectory
    else if name = [] ∨ name = [0x2E] then .ok place
    else if name = [0x2E, 0x2E] then
      .ok (if names.isEmpty && !d.atRoot then .outside else .inside names.dropLast)
    else if maxName < name.length then .error .nameTooLong
    else
      let next := names ++ [name]
      if (d.file? next).isSome || d.isDir next then .ok (.inside next) else .error .missing

/-- Follows a path. -/
def follow (d : Disk) (place : Place) : List Bytes → Except FileFault Place
  | [] => .ok place
  | n :: ns =>
    match d.enter place n with
    | .error f => .error f
    | .ok next => d.follow next ns

/-- Reads the file at a path. -/
def read (d : Disk) (path : Bytes) : Except FileFault Bytes :=
  if path.isEmpty then .error .missing
  else if maxPath < path.length then .error .nameTooLong
  else
    let start : Place := if path.head? = some 0x2F ∧ !d.atRoot then .outside else .inside []
    match d.follow start (splitSlashes path) with
    | .error f => .error f
    | .ok .outside => .error .isDirectory
    | .ok (.inside names) =>
      match d.file? names with
      | some b => .ok b
      | none => .error .isDirectory

/-- Opens the file at a path for a reader who puts file faults in his own words. A path with NUL is
refused before the disk is asked. -/
def openPath (d : Disk) (path : Path) (refuse : FileFault → Fault) : Except Fault Bytes :=
  if path.toBytes.contains 0 then .error .nulInPath
  else
    match d.read path.toBytes with
    | .error f => .error (refuse f)
    | .ok b => .ok b

/-- The names of a path from which every step up has been taken out together with the name before
it. -/
def plainNames (s : String) : Names :=
  (splitSlashes (utf8Bytes s)).foldl (fun names n =>
    if n = [] ∨ n = [0x2E] then names
    else if n = [0x2E, 0x2E] then names.dropLast
    else names ++ [n]) []

/-- A disk with the given files and directories, named by texts. -/
def ofNames (files : List (String × Bytes)) (dirs : List String) : Disk where
  files := files.map fun f => (plainNames f.1, f.2)
  dirs := dirs.map plainNames

end Disk

end Gcode
