import WitnessReplay.Host.FileError

/-!
# Machines

What a validation needs of the system around it: it keeps files, and it runs commands, which change
the system as they like. Nothing more is assumed, so that what is said of validations holds of every
such system.
-/

namespace WitnessReplay

/-- What a process leaves when it ends by itself: its exit code, unless a signal ended it, and what
it wrote. -/
structure ProcessOutput where
  exitCode : Option Int
  stdout : List UInt8
  stderr : List UInt8
deriving DecidableEq, Repr

/-- How a run comes to its end: by itself, or cut off at a limit. -/
inductive ProcessEnd
  | ended (output : ProcessOutput)
  | cutOff
deriving DecidableEq, Repr

/-- Why a run of a command comes to no end that could be seen. -/
inductive RunError
  /-- The command was not started. -/
  | start (cause : FileError)
  /-- The command was started, and waiting for its end failed. -/
  | wait (cause : FileError)
deriving DecidableEq, Repr

/-- What the system says of a run that failed. -/
def RunError.cause : RunError → FileError
  | start cause => cause
  | wait cause => cause

/-- Where something written goes: into a file, or out through one of the streams of whoever writes
it. -/
inductive Destination
  | file
  | standardOutput
  | standardError
deriving DecidableEq, Repr

/-- A machine of states `σ`. -/
structure Machine (σ : Type) where
  /-- Makes a directory that nothing else uses. -/
  makeScratch : σ → Except FileError String × σ
  readFile : String → σ → Except FileError (List UInt8)
  /-- Writes to what a path stands for, and says where that went. -/
  writeFile : String → List UInt8 → σ → Except FileError Destination × σ
  /-- Runs a command with arguments and without input, cut off at a limit in nanoseconds. -/
  run : String → List String → Option Nat → σ → Except RunError ProcessEnd × σ

end WitnessReplay
