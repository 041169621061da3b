import WitnessReplay.Command.Run
import WitnessReplay.Host.World

/-!
# The program

Reads the files that the command line names into a world, runs the command there, and brings what it
printed and wrote back out.
-/

namespace WitnessReplay

/-- The texts on a command line that may name files: arguments, and values behind equals signs. -/
def namedPaths (arguments : List String) : List String :=
  arguments.flatMap fun a =>
    match a.toList.dropWhile (· ≠ '=') with
    | _ :: value => [a, String.ofList value]
    | [] => [a]

/-- The text of a path up to its last name. -/
def parentText (path : String) : String :=
  let front := (path.toList.reverse.dropWhile (· ≠ '/')).reverse
  if front.isEmpty then "." else String.ofList front

/-- Brings a file into a world, if there is one of that name, and the directory above it. Devices
stay as the world has them. -/
def loadFile (w : World) (path : String) : IO World := do
  if let .ok place := w.files.locate w.cwd path then
    if let some (.device _) := w.files.find? place then return w
  let w ← try
      let directory ← IO.FS.realPath (parentText path)
      let names := (directory.toString.splitOn "/").foldl FileSystem.stepTo []
      pure { w with files := w.files.place names .directory }
    catch _ => pure w
  try
    let content ← IO.FS.readBinFile path
    return w.place path content.toList 0o755
  catch _ => return w

/-- Writes a file of a world to where it belongs, if the command changed it. -/
def storeFile (before after : World) (path : String) : IO Unit :=
  match before.contentOf path, after.contentOf path with
  | _, .error _ => return ()
  | old, .ok content =>
    if old.toOption = some content then return ()
    else IO.FS.writeBinFile path (ByteArray.mk content.toArray)

end WitnessReplay

open WitnessReplay in
/-- Runs the command on the arguments of the program. -/
def main (arguments : List String) : IO UInt32 := do
  let directory ← IO.currentDir
  let cwd := (directory.toString.splitOn "/").foldl FileSystem.stepTo []
  let start := World.empty cwd "/tmp/scratch"
  let before ← (namedPaths arguments).foldlM loadFile start
  let (result, after) := World.machine.runCommand arguments before
  for path in namedPaths arguments do
    storeFile before after path
  IO.print result.stdout
  IO.eprint result.stderr
  return UInt32.ofNat result.exitCode
