import WitnessReplay.Host.Shell.Tool
import WitnessReplay.Host.Shell.Expansion

/-!
# Built-in commands

The commands of the shell that run no other command. They change the shell itself: its variables,
its arguments, and whether it goes on.
-/

namespace WitnessReplay.Shell

/-- Ends a command with a status, which ends the script if it is to stop at failures. -/
def finish (status : Nat) : Action Nat := do
  let p ← get
  set { p with status }
  if p.stopsOnFailure && status ≠ 0 then throw (.exits status) else return status

/-- Runs a command whose failure is no reason to stop. -/
def tested (body : Action Nat) : Action Nat := do
  let p ← get
  set { p with stopsOnFailure := false }
  let status ← body
  modify fun q => { q with stopsOnFailure := p.stopsOnFailure, status }
  return status

/-- A status as it stands in an argument, or else a given one. Only the lowest byte counts. -/
def statusArgument (default_ : Nat) : List (List Char) → Action Nat
  | [] => return default_
  | argument :: _ =>
    match Text.digits? argument with
    | some n => return n % 256
    | none => do
      complainOf "exit" [ofText "Illegal number", argument]
      throw (.exits 2)

/-- How many further loops a command means that names their number. -/
def furtherLoops (arguments : List (List Char)) : Nat :=
  ((arguments.head?.bind Text.digits?).getD 1) - 1

/-- Gives a variable the value that an argument has behind an equals sign, for processes started
from here too. -/
def exportArgument (argument : List Char) : Action Unit := do
  let name := argument.takeWhile (· ≠ '=')
  match argument.dropWhile (· ≠ '=') with
  | _ :: value => modify fun p => p.assign name value
  | [] => pure ()
  modify fun p => { p with exported := name :: p.exported }

/-- Sets the options and the arguments of the script. -/
def setOptions : List (List Char) → Action Nat
  | [] => return 0
  | option :: rest =>
    match option with
    | ['-', '-'] => do
      modify fun p => { p with arguments := rest }
      return 0
    | '-' :: letters => do
      if letters.contains 'e' then modify fun p => { p with stopsOnFailure := true }
      setOptions rest
    | '+' :: letters => do
      if letters.contains 'e' then modify fun p => { p with stopsOnFailure := false }
      setOptions rest
    | _ => do
      modify fun p => { p with arguments := option :: rest }
      return 0

/-- Drops arguments of the script from the front. -/
def shiftArguments (arguments : List (List Char)) : Action Nat := do
  let n := (arguments.head?.bind Text.digits?).getD 1
  let p ← get
  if n ≤ p.arguments.length then
    set { p with arguments := p.arguments.drop n }
    return 0
  else
    complainOf "shift" [ofText "can't shift that many"]
    throw (.exits 2)

/-- The commands of the shell that run no other command. -/
def builtin? (name : String) : Option (List (List Char) → Action Nat) :=
  match name with
  | ":" => some fun _ => return 0
  | "exit" => some fun arguments => do
    throw (.exits (← statusArgument (← get).status arguments))
  | "break" => some fun arguments => throw (.breaks (furtherLoops arguments))
  | "continue" => some fun arguments => throw (.continues (furtherLoops arguments))
  | "shift" => some shiftArguments
  | "set" => some setOptions
  | "export" => some fun arguments => do
    for a in arguments do exportArgument a
    return 0
  | _ =>
    if ["true", "false", "echo", "printf", "test", "[", "kill"].contains name then
      tool? name
    else none

end WitnessReplay.Shell
