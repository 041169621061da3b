import WitnessReplay.Host.Shell.Tool

/-!
# Programs by name

Which program a command means: one that comes with the system, or the one that a script names in its
first line.
-/

namespace WitnessReplay.Shell

/-! ### Programs of the system -/

/-- The names of the shell itself. -/
def shellNames : List String := ["sh", "dash", "bash"]

/-- The letters that are options of the shell. Only two of them matter here: `c` for a script in an
argument, and `e` for a script that stops at failures. -/
def shellOptions : List Char := "aefnuvximsVEIbcop".toList

/-- The names of the programs that come with the system. -/
def programNames : List String :=
  shellNames ++ tools.map (·.1)

/-- The permission bits of the programs that come with the system. -/
def programMode : Nat := 0o755

/-- The programs that come with the system, where they are kept. -/
def systemPrograms : List (FilePath × FileEntry) :=
  [["bin"], ["usr", "bin"]].flatMap fun directory =>
    programNames.map fun name => (directory ++ [name], .program name programMode)

/-- The directories where a command without a slash is looked for, in this order. -/
def searchDirectories : List String := ["/usr/local/bin/", "/usr/bin/", "/bin/"]

/-! ### Scripts -/

/-- Whether a character is a blank of the line that names an interpreter. -/
def isLineBlank (c : Char) : Bool :=
  c == ' ' || c == '\t'

/-- The interpreter that the first line of a script names, and the arguments before the script: what
stands behind the name is one argument. A line that names none makes the script no program. -/
def interpreter? (line : List Char) : Except FileError (List Char × List (List Char)) :=
  let line := line.dropWhile isLineBlank
  let path := line.takeWhile fun c => !isLineBlank c
  let rest := (line.dropWhile fun c => !isLineBlank c).dropWhile isLineBlank
  let argument := (rest.reverse.dropWhile isLineBlank).reverse
  if path.isEmpty then .error .notExecutable
  else .ok (path, if argument.isEmpty then [] else [argument])

/-- How many scripts may be interpreters of one another, the first one among them. -/
def interpreterBound : Nat := 6

/-- The program that is executed under a path, and the arguments before those of the command. -/
def programAt (p : Process) (bound : Nat) (path : List Char) :
    Except FileError (String × List (List Char)) :=
  match bound with
  | 0 => .error .tooManyLinks
  | n + 1 => do
    match ← p.shared.files.load (← p.locate path) with
    | .program name => return (name, [])
    | .text content =>
      match ofBytes content with
      | '#' :: '!' :: rest =>
        let (interpreter, arguments) ← interpreter? (rest.takeWhile (· ≠ '\n'))
        let (program, leading) ← programAt p n interpreter
        return (program, leading ++ arguments ++ [path])
      | _ => .error .notExecutable

/-- The program of a command without a slash. One that may not be executed does not end the search,
but is the fault that counts when nothing is found. -/
def searchProgram (p : Process) (name : List Char) (fault : FileError) :
    List String → Except FileError (String × List (List Char))
  | [] => .error fault
  | directory :: rest =>
    match programAt p interpreterBound (ofText directory ++ name) with
    | .ok program => .ok program
    | .error .notPermitted => searchProgram p name .notPermitted rest
    | .error .notFound => searchProgram p name fault rest
    | .error .notDirectory => searchProgram p name fault rest
    | .error e => .error e

/-- The program that a command runs, and the arguments before those of the command. -/
def findProgram (p : Process) (command : List Char) :
    Except FileError (String × List (List Char)) :=
  if command.contains '/' then programAt p interpreterBound command
  else if command.isEmpty then .error .notFound
  else if FileSystem.nameLimit < command.length then .error .nameTooLong
  else searchProgram p command .notFound searchDirectories

end WitnessReplay.Shell
