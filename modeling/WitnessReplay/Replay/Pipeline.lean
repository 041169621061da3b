import WitnessReplay.Program.Parser
import WitnessReplay.Program.Printer
import WitnessReplay.Replay.Linking
import WitnessReplay.Replay.Session
import WitnessReplay.Source.Sanitation

/-!
# From texts to an instrumented program

The way of a program and a witness: the program is sanitized and read, the witness is read and its
steps are located in the sanitized text, the steps are worked into the program, and what comes out
is prepared for linking and printed. The first part that fails decides the error.
-/

namespace WitnessReplay

/-- Why no instrumented program comes of a program and a witness. -/
inductive PipelineError
  | parse (error : ParseError)
  | witness (error : WitnessError)
  | replay (error : ReplayError)
deriving DecidableEq, Repr

namespace PipelineError

/-- The wording of an error. -/
def message : PipelineError → String
  | parse e => e.message
  | witness e => e.message
  | replay e => e.message

/-- The verdict that stands for an error. -/
def reason : PipelineError → String
  | parse e => e.reason
  | witness e => e.reason
  | replay e => e.reason

end PipelineError

/-- An instrumented program: its text, what the replay did, and what linking changed. -/
structure Instrumented where
  source : String
  report : ReplayReport
  link : LinkReport

/-- Sanitizes a text and reads it. -/
def Program.parseSanitized (source : String) : Except ParseError (String × Program) :=
  let sanitized := Sanitation.sanitize source
  (Program.parse sanitized).map fun p => (sanitized, p)

/-- Reads a witness and locates its steps in the text of a program. -/
def loadTransitions (witness program : String) : Except WitnessError (List Transition) :=
  match WitnessGraph.parse witness with
  | .error e => .error e
  | .ok g => g.transitions ⟨Text.encode program.toList⟩

/-- Works the steps of a witness into a program and prints the result. -/
def Program.instrument (p : Program) (steps : List Transition) :
    Except ReplayError Instrumented :=
  match p.replay steps with
  | (_, some e) => .error e
  | (s, none) => .ok ⟨s.program.prepared.render, s.report, s.program.linkReport⟩

/-- The instrumented program of a program and a witness, with the steps of the witness. -/
def instrumentTexts (program witness : String) :
    Except PipelineError (List Transition × Instrumented) := do
  let (sanitized, p) ← (Program.parseSanitized program).mapError .parse
  let steps ← (loadTransitions witness sanitized).mapError .witness
  let result ← (p.instrument steps).mapError .replay
  return (steps, result)

end WitnessReplay
