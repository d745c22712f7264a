import Gcode.Demo

/-!
The command line: `immediate` runs the first demonstration, `background FILE` the second on a file.
-/

namespace Gcode.CommandLine

/-- A disk that holds just the file at a path, as the system knows it. What is there but cannot be
read as a file counts as a directory. -/
def diskWith (path : String) : IO Disk := do
  try
    let bytes ← IO.FS.readBinFile path
    pure { Disk.ofNames [(path, bytes.toList)] [] with atRoot := true }
  catch
    | .noFileOrDirectory _ _ _ => pure { atRoot := true }
    | _ => pure { Disk.ofNames [] [path] with atRoot := true }

/-- Prints what a demonstration prints and exits as it does. -/
def present (r : Demo.Run) : IO UInt32 := do
  IO.print r.text
  pure (UInt32.ofNat (r.exitCode.getD 0))

/-- The settings of the environment. -/
def environment : IO (Except Fault Settings) := do
  pure (Settings.read (← IO.getEnv "GCODE_READ_CHUNK_SIZE") (← IO.getEnv "GCODE_ENCODING")
    (← IO.getEnv "GCODE_STRICT"))

end Gcode.CommandLine

open Gcode Gcode.CommandLine in
/-- Runs a demonstration. -/
def main (args : List String) : IO UInt32 := do
  match ← environment with
  | .error f => do
    IO.eprintln f.text
    pure 1
  | .ok settings =>
    match args with
    | "immediate" :: _ => present (Demo.immediate settings)
    | "background" :: rest =>
      let disk ← match rest with
        | [path] => diskWith path
        | _ => pure {}
      present (Demo.background settings disk "background" rest)
    | _ => do
      IO.println "usage: immediate | background FILE"
      pure 2
