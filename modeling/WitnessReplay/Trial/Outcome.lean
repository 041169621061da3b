import WitnessReplay.Host.Machine
import WitnessReplay.Text.Pattern
import WitnessReplay.Text.Utf8

/-!
# Outcomes of trials

A trial runs the compiled program once. It reaches the error if the program ends with a certain exit
code or prints a certain marker; a run that is cut off decides nothing.
-/

namespace WitnessReplay

/-- The exit code by which a program reports the error. -/
def errorExitCode : Int := 74

/-- The marker by which a program reports the error on its standard output. -/
def errorMarker : String := "Reached error!"

/-- What a trial shows. -/
inductive Outcome
  | errorReached
  | notReached
  | timedOut
deriving DecidableEq, Repr

/-- What a run that ended by itself shows. -/
def classify (exitCode : Option Int) (stdout : List Char) : Outcome :=
  if exitCode = some errorExitCode ∨ (Text.Pattern.cut errorMarker.toList stdout).isSome then
    .errorReached
  else .notReached

/-- A trial: its outcome, the exit code, and what the program wrote, read as text. -/
structure TrialRecord where
  outcome : Outcome
  exitCode : Option Int
  stdout : String
  stderr : String
deriving DecidableEq, Repr

/-- The trial that a run makes up. Of a run that was cut off nothing is kept. -/
def TrialRecord.ofRun : ProcessEnd → TrialRecord
  | .cutOff => ⟨.timedOut, none, "", ""⟩
  | .ended output =>
    let stdout := Text.decodeLossy output.stdout
    ⟨classify output.exitCode stdout, output.exitCode, String.ofList stdout,
      String.ofList (Text.decodeLossy output.stderr)⟩

end WitnessReplay
