import WitnessReplay.Command.Arguments
import WitnessReplay.Command.Report
import WitnessReplay.Replay.Pipeline

/-!
# The command

A run of the command on a machine: the program and the witness are read from their files, the
instrumented program is validated, and the last line printed gives the verdict. A fault on the way
ends the run; the verdict is then the reason why there is none.
-/

namespace WitnessReplay

/-- Why the command comes to no verdict. -/
inductive CommandError
  | unknownMode (name : String)
  | file (path : String) (cause : FileError)
  | replay (error : PipelineError)
  | trial (error : TrialError)
deriving DecidableEq, Repr

namespace CommandError

/-- The wording of an error. -/
def message : CommandError → String
  | unknownMode name => Mode.unknownMessage name
  | file path cause => path ++ ": " ++ cause.message
  | replay e => e.message
  | trial e => e.message

/-- The verdict that stands for an error. -/
def reason : CommandError → String
  | unknownMode _ => "Unknown error"
  | file .. => "Unknown error"
  | replay e => e.reason
  | trial e => e.reason

end CommandError

/-- What has been printed on the standard output and on the standard error. -/
structure Printed where
  stdout : String
  stderr : String
deriving DecidableEq, Repr

namespace Printed

/-- A text of blocks, each on lines of its own. -/
def textOf (blocks : List String) : String :=
  String.join (blocks.map (· ++ "\n"))

/-- What has been printed before anything is. -/
def empty : Printed := ⟨"", ""⟩

/-- The same, and blocks on the standard output. -/
def withBlocks (blocks : List String) (p : Printed) : Printed :=
  { p with stdout := p.stdout ++ textOf blocks }

/-- The same, and blocks on the standard error. -/
def withComplaints (blocks : List String) (p : Printed) : Printed :=
  { p with stderr := p.stderr ++ textOf blocks }

/-- The same, and a text that was written to a destination. -/
def withText (text : String) (destination : Destination) (p : Printed) : Printed :=
  match destination with
  | .file => p
  | .standardOutput => { p with stdout := p.stdout ++ text }
  | .standardError => { p with stderr := p.stderr ++ text }

end Printed

/-- What the command leaves: its exit code, and what it printed. -/
structure CommandResult extends Printed where
  exitCode : Nat
deriving DecidableEq, Repr

namespace CommandResult

/-- The exit code of a run that comes to no verdict. -/
def failureCode : Nat := 255

/-- The exit code of a command line at fault. -/
def usageCode : Nat := 2

/-- The last line of a run. -/
def verdictLine (verdict : String) : String :=
  "Verdict: " ++ verdict

/-- A run that came to a verdict, behind what it printed. -/
def completed (printed : Printed) (r : ValidationResult) : CommandResult :=
  ⟨printed.withBlocks [r.tally.message, verdictLine r.verdict.name], 0⟩

/-- A run that came to none, behind what it printed. -/
def failed (printed : Printed) (e : CommandError) : CommandResult :=
  ⟨(printed.withBlocks [verdictLine e.reason]).withComplaints ["Error: " ++ e.message],
    failureCode⟩

end CommandResult

/-- What came of reading and instrumenting: what was printed meanwhile, and the program. -/
structure Preparation (σ : Type) where
  printed : Printed
  result : Except CommandError String
  state : σ

namespace Options

/-- The settings of the validation. -/
def config (o : Options) (mode : Mode) : ValidationConfig :=
  ⟨mode, o.trials, ⟨o.timeoutSecs, 0⟩, { CompilerConfig.standard with cc := o.cc }⟩

end Options

namespace Machine

variable {σ : Type}

/-- The text in a file. -/
def readText (m : Machine σ) (path : String) (s : σ) : Except FileError String :=
  match m.readFile path s with
  | .error cause => .error cause
  | .ok bytes =>
    match Text.decode? bytes with
    | some cs => .ok (String.ofList cs)
    | none => .error .notText

/-- Writes an instrumented program to where it is wanted, which may be a stream of the command. -/
def emit (m : Machine σ) (path : Option String) (source : String) (s : σ) :
    Except CommandError Destination × σ :=
  match path with
  | none => (.ok .file, s)
  | some path =>
    match m.writeFile path (Text.encode source.toList) s with
    | (.error cause, next) => (.error (.file path cause), next)
    | (.ok destination, next) => (.ok destination, next)

/-- Instruments a program with the steps of a witness. -/
def instrumentSteps (m : Machine σ) (o : Options) (program : Program) (steps : List Transition)
    (s : σ) : Preparation σ :=
  let printed := Printed.empty.withBlocks
    (if o.dumpTransitions then [transitionsBlock steps] else [])
  match program.instrument steps with
  | .error e => ⟨printed, .error (.replay (.replay e)), s⟩
  | .ok result =>
    match m.emit o.emit result.source s with
    | (.error e, next) => ⟨printed, .error e, next⟩
    | (.ok destination, next) =>
      ⟨printed.withText result.source destination, .ok result.source, next⟩

/-- Reads a program and a witness, and instruments the one with the other. The witness is read only
when the program has been understood. -/
def prepare (m : Machine σ) (o : Options) (s : σ) : Preparation σ :=
  match m.readText o.input s with
  | .error cause => ⟨.empty, .error (.file o.input cause), s⟩
  | .ok text =>
    match Program.parseSanitized text with
    | .error e => ⟨.empty, .error (.replay (.parse e)), s⟩
    | .ok (sanitized, program) =>
      match m.readText o.witness s with
      | .error cause => ⟨.empty, .error (.replay (.witness (.unreadable cause))), s⟩
      | .ok witness =>
        match loadTransitions witness sanitized with
        | .error e => ⟨.empty, .error (.replay (.witness e)), s⟩
        | .ok steps => m.instrumentSteps o program steps s

/-- Validates as the options say. -/
def runOptions (m : Machine σ) (o : Options) (s : σ) : CommandResult × σ :=
  match Mode.ofName? o.mode with
  | none => (.failed .empty (.unknownMode o.mode), s)
  | some mode =>
    let prepared := m.prepare o s
    match prepared.result with
    -- what was printed before the fault stays printed
    | .error e => (.failed prepared.printed e, prepared.state)
    | .ok source =>
      let run := m.validate (o.config mode) source prepared.state
      let printed := prepared.printed.withBlocks (run.events.flatMap Event.blocks)
      match run.result with
      | .error e => (.failed printed (.trial e), run.state)
      | .ok result => (.completed printed result, run.state)

end Machine

/-- The name and the version of the command. -/
def versionText : String := "conwit 0.1.0"

/-- How the command is used. -/
def helpText : String := "\n".intercalate [
  "Validate concurrent violation witnesses by execution",
  "",
  "Usage: conwit [OPTIONS] --witness <WITNESS.graphml> <INPUT.c>",
  "",
  "Arguments:",
  "  <INPUT.c>  Program under validation",
  "",
  "Options:",
  "      --witness <WITNESS.graphml>  Violation witness in GraphML [aliases: --graphml-witness]",
  "      --mode <MODE>                Trial mode: strict, normal or permissive [default: normal]",
  "      --trials <TRIALS>            Maximum number of trials [default: 100]",
  "      --timeout-secs <SECS>        Per-trial timeout in seconds [default: 10]",
  "      --cc <CC>                    C compiler to invoke [default: gcc]",
  "      --emit <PATH>                Also write the instrumented program to this path",
  "      --dump-transitions           Print the resolved witness transitions as JSON",
  "  -v, --verbose...                 Log more",
  "  -h, --help                       Print help",
  "  -V, --version                    Print version"]

/-- Runs the command on its arguments. -/
def Machine.runCommand {σ : Type} (m : Machine σ) (arguments : List String) (s : σ) :
    CommandResult × σ :=
  match Request.ofArguments? arguments with
  | .error e =>
    (⟨Printed.empty.withComplaints ["error: " ++ e.message], CommandResult.usageCode⟩, s)
  | .ok .version => (⟨Printed.empty.withBlocks [versionText], 0⟩, s)
  | .ok .help => (⟨Printed.empty.withBlocks [helpText], 0⟩, s)
  | .ok (.validate o) => m.runOptions o s

end WitnessReplay
