import WitnessReplay.Trial.Config
import WitnessReplay.Trial.SupportCode

/-!
# Validation

An instrumented program is validated by compiling it once and running it many times, both on a
machine. What a validation does is a list of events and a result.
-/

namespace WitnessReplay

/-- Why a validation comes to no verdict. -/
inductive TrialError
  /-- A file could not be written, or the end of a trial not be awaited. -/
  | file (cause : FileError)
  | compilerSpawn (cc : String) (cause : FileError)
  | compilation (exitCode : Option Int)
  | spawn (path : String) (cause : FileError)
deriving DecidableEq, Repr

namespace TrialError

/-- How an exit code is shown that may be absent. -/
def showExitCode : Option Int → String
  | some code => "Some(" ++ toString code ++ ")"
  | none => "None"

/-- The wording of an error. -/
def message : TrialError → String
  | file cause => "I/O error: " ++ cause.message
  | compilerSpawn cc cause => "failed to run compiler '" ++ cc ++ "': " ++ cause.message
  | compilation exitCode => "compilation failed (exit code " ++ showExitCode exitCode ++ ")"
  | spawn path cause => "failed to run '" ++ path ++ "': " ++ cause.message

/-- The verdict that stands for an error. -/
def reason : TrialError → String
  | compilation _ => "Compilation error"
  | file _ => "Unknown error"
  | compilerSpawn .. => "Unknown error"
  | spawn .. => "Unknown error"

end TrialError

/-- What a compiler wrote, and its exit code unless a signal ended it. -/
structure CompilerOutput where
  stdout : String
  stderr : String
  exitCode : Option Int
deriving DecidableEq, Repr

namespace CompilerOutput

/-- Whether a compilation succeeded. -/
def success (o : CompilerOutput) : Bool :=
  o.exitCode == some 0

/-- What a run of the compiler leaves. One that is cut off leaves nothing. -/
def ofRun : ProcessEnd → CompilerOutput
  | .ended o =>
    ⟨String.ofList (Text.decodeLossy o.stdout), String.ofList (Text.decodeLossy o.stderr),
      o.exitCode⟩
  | .cutOff => ⟨"", "", none⟩

end CompilerOutput

/-- What can be seen of a validation while it goes on. -/
inductive Event
  | compilationStarted
  | compiled (output : CompilerOutput)
  | trialStarted (index : Nat)
  | trialFinished (index : Nat) (record : TrialRecord)
deriving DecidableEq, Repr

/-- A piece of a validation: what was seen, what came of it, and the machine behind it. -/
structure Progress (σ α : Type) where
  events : List Event
  result : Except TrialError α
  state : σ

/-- The same piece after some earlier events. -/
def Progress.after {σ α : Type} (events : List Event) (p : Progress σ α) : Progress σ α :=
  { p with events := events ++ p.events }

/-- Runs trials and counts their outcomes, up to a number of trials, the first outcome that stops,
or the first failure. -/
def runTrials {σ : Type} (trial : σ → Except TrialError TrialRecord × σ) (mode : Mode) :
    Nat → Nat → Tally → σ → Progress σ Tally
  | 0, _, tally, s => ⟨[], .ok tally, s⟩
  | budget + 1, index, tally, s =>
    match trial s with
    | (.error e, next) => ⟨[.trialStarted index], .error e, next⟩
    | (.ok record, next) =>
      let tally := tally.record record.outcome
      .after [.trialStarted index, .trialFinished index record] <|
        if mode.shouldStop record.outcome then ⟨[], .ok tally, next⟩
        else runTrials trial mode budget (index + 1) tally next

/-- What a validation comes to. -/
structure ValidationResult where
  verdict : Verdict
  tally : Tally
deriving DecidableEq, Repr

namespace Machine

variable {σ : Type}

/-- Runs a program once, for a time at most. -/
def trial (m : Machine σ) (path : String) (timeout : Duration) (s : σ) :
    Except TrialError TrialRecord × σ :=
  match m.run path [] (some timeout.toNanos) s with
  | (.error (.start cause), next) => (.error (.spawn path cause), next)
  | (.error (.wait cause), next) => (.error (.file cause), next)
  | (.ok finish, next) => (.ok (.ofRun finish), next)

/-- Compiles the files of a directory and runs the trials there. -/
def compileAndRun (m : Machine σ) (config : ValidationConfig) (dir : String) (s : σ) :
    Progress σ ValidationResult :=
  let binary := dir ++ "/program"
  let args := config.compiler.flags
    ++ [dir ++ "/program.c", dir ++ "/" ++ supportFileName, "-o", binary]
  match m.run config.compiler.cc args none s with
  -- a compiler that is lost is reported as one that was not started
  | (.error e, next) =>
    ⟨[.compilationStarted], .error (.compilerSpawn config.compiler.cc e.cause), next⟩
  | (.ok finish, next) =>
    let output := CompilerOutput.ofRun finish
    .after [.compilationStarted, .compiled output] <|
      if output.success then
        let trials := runTrials (m.trial binary config.timeout) config.mode
          config.maxTrials.toNat 0 .empty next
        { trials with result := trials.result.map fun tally => ⟨tally.verdict, tally⟩ }
      else ⟨[], .error (.compilation output.exitCode), next⟩

/-- Validates an instrumented program in a scratch directory. -/
def validate (m : Machine σ) (config : ValidationConfig) (source : String) (s : σ) :
    Progress σ ValidationResult :=
  match m.makeScratch s with
  | (.error cause, s) => ⟨[], .error (.file cause), s⟩
  | (.ok dir, s) =>
    match m.writeFile (dir ++ "/program.c") (Text.encode source.toList) s with
    | (.error cause, s) => ⟨[], .error (.file cause), s⟩
    | (.ok _, s) =>
      match m.writeFile (dir ++ "/" ++ supportFileName) (Text.encode supportSource.toList) s with
      | (.error cause, s) => ⟨[], .error (.file cause), s⟩
      -- both files stand in place before the compiler is started
      | (.ok _, s) => m.compileAndRun config dir s

end Machine

end WitnessReplay
