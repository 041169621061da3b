import WitnessReplay.Host.Machine
import WitnessReplay.Host.Shell.Interpreter

/-!
# A world of files and scripts

A machine whose programs are scripts. Its state is its files and the directory from which names are
seen; a run of a command ends with the files as the command left them. Time is counted in starts of
processes and in sleep alone, so that a run comes to the same end whenever it is made.

It is only the world that the command runs in. What is proved of validations holds of every machine,
and nothing of it rests on this one.
-/

namespace WitnessReplay

/-- A world: its files, the directory from which names are seen, and the name that is given to
directories for temporary files. -/
structure World where
  files : FileSystem
  cwd : FilePath
  scratch : String

namespace World

/-- A world with nothing in it but what comes with the system, and the directory from which names
are seen. -/
def empty (cwd : FilePath) (scratch : String) : World :=
  let files : FileSystem := ⟨FileSystem.standard.entries ++ Shell.systemPrograms⟩
  ⟨files.place cwd .directory, cwd, scratch⟩

/-- Puts a file into a world, with the directories above it. -/
def place (w : World) (name : String) (content : List UInt8) (mode : Nat) : World :=
  let start := if name.toList.head? = some '/' then [] else w.cwd
  let path := (name.splitOn "/").foldl FileSystem.stepTo start
  { w with files := w.files.place path (.file content mode) }

/-- The content of a file. -/
def contentOf (name : String) (w : World) : Except FileError (List UInt8) := do
  w.files.read (← w.files.locate w.cwd name)

/-- Where writing under a path goes. -/
def destination (w : World) (path : FilePath) : Destination :=
  match w.files.find? path with
  | some (.device (.stream 1)) => .standardOutput
  | some (.device (.stream 2)) => .standardError
  | _ => .file

/-- Gives a file a content. -/
def writeFile (name : String) (content : List UInt8) (w : World) :
    Except FileError Destination × World :=
  match w.files.locateNew w.cwd name with
  | .error e => (.error e, w)
  | .ok path =>
    match w.files.write path content with
    | .error e => (.error e, w)
    | .ok files => (.ok (w.destination path), { w with files })

/-- Makes a directory under the first name that is not in use. -/
def makeScratch (w : World) : Except FileError String × World :=
  let names := (List.range (w.files.entries.length + 1)).map fun n =>
    if n = 0 then w.scratch else w.scratch ++ toString n
  let unused (name : String) : Option (String × FilePath) :=
    match w.files.locate w.cwd name with
    | .ok path => if (w.files.find? path).isNone then some (name, path) else none
    | .error _ => none
  match names.findSome? unused with
  | some (name, path) => (.ok name, { w with files := w.files.set path .directory })
  | none => (.error .notFound, w)

/-- The number of the process that runs a command. -/
def commandPid : Nat := 1000

/-- The process in which a command begins. -/
def process (w : World) (limit : Option Nat) : Shell.Process where
  shared := { files := w.files, clock := 0, deadline := limit, streams := [[], []], input := [] }
  pid := commandPid
  cwd := w.cwd
  name := Shell.ofText "sh"
  arguments := []
  bindings := []
  exported := []
  sinks := [(1, .stream 0), (2, .stream 1)]
  status := 0
  line := 0
  isShell := false
  stopsOnFailure := false

/-- What comes of a process that has an exit code, or was ended by a signal. -/
def endOf (p : Shell.Process) (exitCode : Option Nat) : ProcessEnd :=
  let stream (i : Nat) := Shell.toBytes (p.shared.streams[i]?.getD [])
  .ended ⟨exitCode.map fun n => ((n % 256 : Nat) : Int), stream 0, stream 1⟩

/-- Runs a command with arguments, cut off at a limit. -/
def run (command : String) (arguments : List String) (limit : Option Nat) (w : World) :
    Except RunError ProcessEnd × World :=
  let hasZero (s : String) : Bool := s.toList.any fun c => c.toNat == 0
  if hasZero command || arguments.any hasZero then (.error (.start .zeroByte), w)
  else
    let start := w.process limit
    match Shell.findProgram start (Shell.ofText command) with
    | .error e => (.error (.start e), w)
    | .ok (program, leading) =>
      let body := Shell.execute Shell.depthBound program (leading ++ arguments.map Shell.ofText)
      let (result, p) := Shell.asSubshell body start
      let next := { w with files := p.shared.files }
      match result with
      | .ok status => (.ok (endOf p (some status)), next)
      | .error (.killed ..) => (.ok (endOf p none), next)
      | .error .cutOff => (.ok .cutOff, next)
      | .error _ => (.ok (endOf p (some 0)), next)

/-- A world as a machine. -/
def machine : Machine World where
  makeScratch := makeScratch
  readFile := contentOf
  writeFile := writeFile
  run := run

end World

end WitnessReplay
