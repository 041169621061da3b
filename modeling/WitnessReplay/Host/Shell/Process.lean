import WitnessReplay.Host.FileSystem
import WitnessReplay.Host.Shell.Basic
import WitnessReplay.Text.Utf8

/-!
# Processes

The state of a process that runs a script, and the actions on it. What processes share is kept
apart, so that a process can start another one in its own image and go on as it was, with the files,
the clock and the streams as the other one left them.

Time passes where a process is started and where one sleeps. A run may have a deadline, at which it
is cut off wherever it is.
-/

namespace WitnessReplay.Shell

/-! ### Texts of bytes -/

/-- Bytes as characters of the same number. -/
def ofBytes (bytes : List UInt8) : List Char :=
  bytes.map fun b => Char.ofNat b.toNat

/-- Characters as bytes of the same number. -/
def toBytes (cs : List Char) : List UInt8 :=
  cs.map fun c => UInt8.ofNat c.toNat

/-- A text as its bytes stand in a script. -/
def ofText (s : String) : List Char :=
  ofBytes (Text.encode s.toList)

/-- The text that stands in a script. -/
def toText (cs : List Char) : String :=
  String.ofList (Text.decodeLossy (toBytes cs))

/-- A number in decimal. -/
def ofNat (n : Nat) : List Char :=
  (toString n).toList

/-! ### State -/

/-- Where the writing to a descriptor goes. -/
inductive Sink
  /-- One of the streams that are being collected. -/
  | stream (index : Nat)
  | file (path : FilePath)
  | nowhere
deriving DecidableEq, Repr

/-- What all processes of a run share. The input is what remains of it. -/
structure Shared where
  files : FileSystem
  clock : Nat
  deadline : Option Nat
  streams : List (List Char)
  input : List Char

/-- A process that runs a script. -/
structure Process where
  shared : Shared
  pid : Nat
  cwd : FilePath
  /-- The name under which the script was started. -/
  name : List Char
  arguments : List (List Char)
  bindings : List (List Char × List Char)
  /-- The variables that processes started from here have too. -/
  exported : List (List Char)
  sinks : List (Nat × Sink)
  /-- The status of the last command. -/
  status : Nat
  /-- The line of the command that is being run. -/
  line : Nat
  /-- Whether the process is a shell, and not a tool. -/
  isShell : Bool
  /-- Whether a command that fails ends the script. -/
  stopsOnFailure : Bool

/-- What ends the ordinary course of a script. -/
inductive Stop
  | exits (status : Nat)
  /-- Leaves loops, the innermost and so many more. -/
  | breaks (more : Nat)
  /-- Goes on with the next round of a loop, behind so many inner ones. -/
  | continues (inner : Nat)
  | killed (pid signal : Nat)
  | cutOff
deriving DecidableEq, Repr

/-- What a process does: it changes the state, and then goes on or stops. -/
abbrev Action := ExceptT Stop (StateM Process)

namespace Process

/-- Gives a variable a value. -/
def assign (p : Process) (name value : List Char) : Process :=
  { p with bindings := (name, value) :: p.bindings.filter (·.1 != name) }

/-- Writes to a descriptor. What is written to a closed one is lost. -/
def write (p : Process) (descriptor : Nat) (text : List Char) : Process :=
  match p.sinks.lookup descriptor with
  | some (.stream i) => { p with shared.streams := p.shared.streams.modify i (· ++ text) }
  | some (.file path) =>
    match p.shared.files.append path (toBytes text) with
    | .ok files => { p with shared.files := files }
    | .error _ => p
  | some .nowhere => p
  | none => p

/-- The path that a text stands for. -/
def locate (p : Process) (name : List Char) : Except FileError FilePath :=
  p.shared.files.locate p.cwd (toText name)

/-- The path that a text stands for where a file may be made. -/
def locateNew (p : Process) (name : List Char) : Except FileError FilePath :=
  p.shared.files.locateNew p.cwd (toText name)

/-- What a text leads to, if it leads anywhere. -/
def entry? (p : Process) (name : List Char) : Option FileEntry :=
  match p.locate name with
  | .ok path => p.shared.files.find? path
  | .error _ => none

/-- The value of a parameter, unless it is unset. The parameters that stand for all arguments are
not meant here. -/
def parameter? (p : Process) (name : List Char) : Option (List Char) :=
  match name with
  | ['?'] => some (ofNat p.status)
  | ['#'] => some (ofNat p.arguments.length)
  | ['$'] => some (ofNat p.pid)
  | ['-'] => some (if p.stopsOnFailure then ['e'] else [])
  | ['!'] => none
  | ['0'] => some p.name
  | _ =>
    if name.all Char.isDigit then
      p.arguments[name.foldl (fun n d => 10 * n + (d.toNat - '0'.toNat)) 0 - 1]?
    else p.bindings.lookup name

end Process

/-! ### Actions -/

/-- Writes to the standard output. -/
def say (text : List Char) : Action Unit :=
  modify fun p => p.write 1 text

/-- Writes a line to the standard error. A shell says first which script and which line it is
about. -/
def complain (text : List Char) : Action Unit :=
  modify fun p =>
    let place := if p.isShell then p.name ++ ofText ": " ++ ofNat p.line ++ ofText ": " else []
    p.write 2 (place ++ text ++ ['\n'])

/-- Complains in the name of a command. -/
def complainOf (command : String) (parts : List (List Char)) : Action Unit :=
  complain (ofText command ++ parts.flatMap fun part => ofText ": " ++ part)

/-- Lets time pass, in nanoseconds. -/
def spend (time : Nat) : Action Unit := do
  modify fun p => { p with shared.clock := p.shared.clock + time }
  let p ← get
  if p.shared.deadline.any (· < p.shared.clock) then throw .cutOff

/-- Stops the whole run, as something that never ends would. -/
def hang {α : Type} : Action α :=
  throw .cutOff

/-- Takes what remains of the input. -/
def takeInput : Action (List Char) := do
  let p ← get
  set { p with shared.input := [] }
  return p.shared.input

/-- Runs an action for its course, also where it stops. -/
def attempt {α : Type} (body : Action α) : Action (Except Stop α) :=
  fun p =>
    let (result, next) := body p
    (.ok result, next)

/-- Changes the files, and says whether that succeeded. -/
def tryFiles (change : FileSystem → Except FileError FileSystem) :
    Action (Except FileError Unit) := do
  let p ← get
  match change p.shared.files with
  | .ok files =>
    set { p with shared.files := files }
    return .ok ()
  | .error e => return .error e

/-- The cause for which a file cannot be used, without the number of the system error. -/
def causeOf : FileError → List Char
  | .notFound => ofText "No such file or directory"
  | .notPermitted => ofText "Permission denied"
  | .notDirectory => ofText "Not a directory"
  | .isDirectory => ofText "Is a directory"
  | .notExecutable => ofText "Exec format error"
  | .nameTooLong => ofText "File name too long"
  | .tooManyLinks => ofText "Too many levels of symbolic links"
  | .noDevice => ofText "No such device or address"
  | .noSpace => ofText "No space left on device"
  | .notText => ofText "Invalid or incomplete multibyte or wide character"
  | .zeroByte => ofText "Invalid argument"

/-- The cause for which a file cannot be opened, as the shell says it. -/
def shellCauseOf (creates : Bool) : FileError → List Char
  | .notFound => ofText (if creates then "Directory nonexistent" else "No such file")
  | .notDirectory => ofText (if creates then "Directory nonexistent" else "No such file")
  | cause => causeOf cause

/-- How a shell says that a signal ended a process. Of some it says nothing. -/
def signalText (signal : Nat) : Option String :=
  [(1, "Hangup"), (3, "Quit"), (4, "Illegal instruction"), (5, "Trace/breakpoint trap"),
    (6, "Aborted"), (7, "Bus error"), (8, "Floating point exception"), (9, "Killed"),
    (10, "User defined signal 1"), (11, "Segmentation fault"), (12, "User defined signal 2"),
    (14, "Alarm clock"), (15, "Terminated")].lookup signal

/-- The status of a process that a signal ended, as others see it. -/
def statusOfSignal (signal : Nat) : Nat :=
  128 + signal

/-- Runs an action as a process in the image of this one, which then goes on as it was. What comes
of it is the status of the process. -/
def asSubshell (body : Action Nat) : Action Nat := do
  let before ← get
  let result ← attempt body
  modify fun p => { before with shared := p.shared }
  match result with
  | .ok status => return status
  | .error (.exits status) => return status
  | .error (.breaks _) => return 0
  | .error (.continues _) => return 0
  | .error (.killed pid signal) => throw (.killed pid signal)
  | .error .cutOff => throw .cutOff

/-- Runs an action as a process with another number. A signal to that process ends it alone. -/
def asChild (body : Action Nat) : Action Nat := do
  let before ← get
  let pid := before.pid + 1
  let result ← attempt (asSubshell do
    modify fun p => { p with pid }
    body)
  match result with
  | .ok status => return status
  | .error (.killed victim signal) =>
    if victim = pid then
      modify fun p => { before with shared := p.shared }
      match signalText signal with
      | some text => modify fun p => p.write 2 (ofText text ++ ['\n'])
      | none => pure ()
      return statusOfSignal signal
    else throw (.killed victim signal)
  | .error stop => throw stop

/-- Collects what an action writes to its standard output. -/
def collecting {α : Type} (body : Action α) : Action (List Char × α) := do
  let before ← get
  let index := before.shared.streams.length
  set { before with
    shared.streams := before.shared.streams ++ [[]]
    sinks := (1, .stream index) :: before.sinks }
  let result ← body
  let p ← get
  set { p with shared.streams := p.shared.streams.take index, sinks := before.sinks }
  return (p.shared.streams[index]?.getD [], result)

/-- Runs an action with another input, of which nothing remains afterwards. -/
def withInput {α : Type} (input : List Char) (body : Action α) : Action α := do
  let before ← get
  set { before with shared.input := input }
  let result ← body
  modify fun p => { p with shared.input := before.shared.input }
  return result

end WitnessReplay.Shell
