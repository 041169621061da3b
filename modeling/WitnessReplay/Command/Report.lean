import WitnessReplay.Json.Printer
import WitnessReplay.Trial.Validation
import WitnessReplay.Witness.Transition

/-!
# Reports

What a validation prints while it goes on: blocks of text, each on lines of its own. The output of
the compiler and of the program stands between the lines that say when they started and how they
ended, without the line ends at its end; of an empty output nothing is printed.
-/

namespace WitnessReplay

/-- A text without the line ends at its end. -/
def withoutFinalNewlines (s : String) : String :=
  String.ofList (s.toList.reverse.dropWhile (· == '\n')).reverse

/-- The block that shows an output. -/
def outputBlock (s : String) : List String :=
  if s.isEmpty then [] else [withoutFinalNewlines s]

/-- How a process ended, in words. -/
def exitText : Option Int → String
  | some code => toString code
  | none => "signal"

/-- How a trial ended, in words. -/
def TrialRecord.endText (r : TrialRecord) : String :=
  match r.outcome with
  | .timedOut => "timeout"
  | _ => "exit code " ++ exitText r.exitCode

/-- The blocks that report an event. -/
def Event.blocks : Event → List String
  | compilationStarted => ["Compilation started"]
  | compiled o =>
    outputBlock o.stdout ++ outputBlock o.stderr
      ++ ["Compilation ended (exit code " ++ exitText o.exitCode ++ ")"]
  | trialStarted _ => ["Execution started"]
  | trialFinished _ r =>
    outputBlock r.stdout ++ outputBlock r.stderr ++ ["Execution ended (" ++ r.endText ++ ")"]

/-! ### Steps of a witness -/

/-- A position in the program. -/
def Coords.toJson (c : Coords) : Json :=
  .object [("startline", .nat c.startline), ("column", .nat c.column), ("endline", .nat c.endline),
    ("length", .nat c.length), ("content", .string c.content)]

/-- What a step says beside its position. -/
def TransitionMetadata.toJson (m : TransitionMetadata) : Json :=
  .object [("assumption", .ofOption .string m.assumption), ("control", .ofOption .string m.control),
    ("thread_id", .ofOption .int m.threadId), ("create_thread", .ofOption .int m.createThread)]

/-- A step of a witness. -/
def Transition.toJson (t : Transition) : Json :=
  .object [("coords", .ofOption Coords.toJson t.coords), ("metadata", t.metadata.toJson)]

/-- The block that shows the steps of a witness. -/
def transitionsBlock (steps : List Transition) : String :=
  (Json.array (steps.map Transition.toJson)).render 0

end WitnessReplay
