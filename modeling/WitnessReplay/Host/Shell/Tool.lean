import WitnessReplay.Host.Shell.TextTool
import WitnessReplay.Host.Shell.Test

/-!
# Tools

The small programs that scripts use, by name: those on files and on text, and those that wait and
send signals.
-/

namespace WitnessReplay.Shell

/-- A length of time as it is written, in nanoseconds: a decimal and a letter for its unit. -/
def nanoseconds? (cs : List Char) : Option Nat :=
  let whole := cs.takeWhile Char.isDigit
  let rest := cs.dropWhile Char.isDigit
  let (places, rest) := match rest with
    | '.' :: rest => (rest.takeWhile Char.isDigit, rest.dropWhile Char.isDigit)
    | _ => ([], rest)
  let unit? : Option Nat := match rest with
    | [] => some 1
    | ['s'] => some 1
    | ['m'] => some 60
    | ['h'] => some 3600
    | ['d'] => some 86400
    | _ => none
  let fraction := places.take 9 ++ List.replicate (9 - places.length) '0'
  match unit?, Text.digits? (whole ++ fraction) with
  | some unit, some n => if whole.isEmpty && places.isEmpty then none else some (n * unit)
  | _, _ => none

/-- Lets the time pass that the arguments give together. -/
def sleep (arguments : List (List Char)) : Action Nat :=
  withOptions "sleep" 1 ⟨"", ""⟩ arguments fun given => do
  if given.operands = [ofText "infinity"] then hang
  match given.operands.mapM nanoseconds? with
  | some (first :: more) =>
    spend (more.foldl (· + ·) first)
    return 0
  | _ =>
    complainOf "sleep" [ofText "invalid time interval"]
    return 1

/-- The signals by name, with their numbers. -/
def signals : List (String × Nat) :=
  [("HUP", 1), ("INT", 2), ("QUIT", 3), ("ILL", 4), ("TRAP", 5), ("ABRT", 6), ("BUS", 7),
    ("FPE", 8), ("KILL", 9), ("USR1", 10), ("SEGV", 11), ("USR2", 12), ("PIPE", 13), ("ALRM", 14),
    ("TERM", 15), ("CHLD", 17), ("CONT", 18), ("STOP", 19), ("TSTP", 20), ("TTIN", 21),
    ("TTOU", 22), ("URG", 23), ("XCPU", 24), ("XFSZ", 25), ("VTALRM", 26), ("PROF", 27),
    ("WINCH", 28), ("IO", 29), ("PWR", 30), ("SYS", 31)]

/-- The number of a signal, which may be given by its name. -/
def signal? (cs : List Char) : Option Nat :=
  match Text.digits? cs with
  | some n => some n
  | none =>
    let name := (String.ofList cs).toUpper
    signals.lookup (if name.startsWith "SIG" then String.ofList (cs.drop 3) else name)

/-- Sends a signal to a process, which is this one or none that is known. Some signals are ignored,
some stop a process without ending it. -/
def deliver (signal : Nat) (target : List Char) : Action Bool := do
  let p ← get
  match Text.digits? target with
  | some victim =>
    if victim ≠ p.pid then
      complainOf "kill" [ofText "No such process"]
      return false
    else if [0, 17, 18, 23, 28].contains signal then return true
    else if [19, 20, 21, 22].contains signal then hang
    else throw (.killed victim signal)
  | none =>
    complainOf "kill" [ofText "Illegal number", target]
    return false

/-- Sends a signal to processes. -/
def kill (arguments : List (List Char)) : Action Nat := do
  let (signal?, targets) : Option Nat × List (List Char) := match arguments with
    | ['-', 's'] :: name :: rest => (signal? name, rest)
    | ['-', '-'] :: rest => (some 15, rest)
    | ('-' :: name) :: rest => (signal? name, rest)
    | rest => (some 15, rest)
  match signal? with
  | some signal => onEach (deliver signal) targets
  | none =>
    complainOf "kill" [ofText "invalid signal"]
    return 2

/-- The tools, by name. -/
def tools : List (String × (List (List Char) → Action Nat)) := [
  ("true", fun _ => return 0),
  ("false", fun _ => return 1),
  ("echo", fun arguments => do say (echoText arguments); return 0),
  ("printf", printf),
  ("test", testStatus),
  ("[", fun arguments => do
    if arguments.getLast? = some [']'] then testStatus arguments.dropLast
    else
      complainOf "[" [ofText "missing ]"]
      return 2),
  ("cat", cat),
  ("cp", cp),
  ("rm", rm),
  ("touch", touch),
  ("chmod", chmod),
  ("wc", wc),
  ("sleep", sleep),
  ("kill", kill),
  ("grep", grep)]

/-- The tool of a name. -/
def tool? (name : String) : Option (List (List Char) → Action Nat) :=
  tools.lookup name

end WitnessReplay.Shell
