import WitnessReplay.Command.Run
import WitnessReplay.Proofs.Trial.Conduct

/-!
# The stages of a run

A run of the command goes through eight stages. What can go wrong at each of them is said here of
the stage alone (`Machine.fault`): of a stage whose inputs are there, whatever has gone wrong at a
stage that it does not depend on. A run comes to no verdict exactly when a stage is at fault, and
the first one decides the error (`Machine.runOptions_cases`).

Each stage has errors of its own, and what is reported of each of them in the place of a verdict is
a table (`Stage.Reports`).
-/

namespace WitnessReplay

/-- The stages of a run. -/
inductive Stage
  | mode
  | program
  | parse
  | witness
  | instrumentation
  | emit
  | compilation
  | trials
deriving DecidableEq, Repr

/-- The stages that prepare a program, in their order. -/
def Stage.preparing : List Stage :=
  [program, parse, witness, instrumentation, emit]

/-- All stages in their order. -/
def Stage.all : List Stage :=
  [mode] ++ preparing ++ [compilation, trials]

/-- The error of a result. -/
def errorOf? {ε α : Type} : Except ε α → Option ε
  | .error e => some e
  | .ok _ => none

@[simp] theorem errorOf?_error {ε α : Type} (e : ε) : errorOf? (.error e : Except ε α) = some e :=
  rfl

@[simp] theorem errorOf?_ok {ε α : Type} (a : α) : errorOf? (.ok a : Except ε α) = none := rfl

namespace Machine

section Fault

variable {σ : Type} (m : Machine σ) (o : Options) (s : σ)

/-- The program and the steps of the witness, if both files hold one. -/
def understood? : Option (Program × List Transition) := do
  let text ← (m.readText o.input s).toOption
  let (sanitized, program) ← (Program.parseSanitized text).toOption
  let witness ← (m.readText o.witness s).toOption
  let steps ← (loadTransitions witness sanitized).toOption
  return (program, steps)

/-- The instrumented program. -/
def instrumented? : Option String := do
  let (program, steps) ← m.understood? o s
  let result ← (program.instrument steps).toOption
  return result.source

/-- The instrumented program, written to where it is wanted, and the machine behind that. -/
def emitted? : Option (String × σ) := do
  let source ← m.instrumented? o s
  let (written, next) := m.emit o.emit source s
  let _ ← written.toOption
  return (source, next)

/-- What goes wrong at a stage, if all that it depends on is there. -/
def fault : Stage → Option CommandError
  | .mode => if (Mode.ofName? o.mode).isNone then some (.unknownMode o.mode) else none
  | .program => (errorOf? (m.readText o.input s)).map (.file o.input)
  | .parse => do
    let text ← (m.readText o.input s).toOption
    let e ← errorOf? (Program.parseSanitized text)
    return .replay (.parse e)
  | .witness =>
    match m.readText o.witness s with
    | .error cause => some (.replay (.witness (.unreadable cause)))
    | .ok witness => do
      let text ← (m.readText o.input s).toOption
      let e ← errorOf? (loadTransitions witness (Sanitation.sanitize text))
      return .replay (.witness e)
  | .instrumentation => do
    let (program, steps) ← m.understood? o s
    let e ← errorOf? (program.instrument steps)
    return .replay (.replay e)
  | .emit => do
    let source ← m.instrumented? o s
    errorOf? (m.emit o.emit source s).1
  | .compilation => do
    let mode ← Mode.ofName? o.mode
    let (source, s) ← m.emitted? o s
    let e ← errorOf? (m.compileSource (o.config mode) source s).result
    return .trial e
  | .trials => do
    let mode ← Mode.ofName? o.mode
    let (source, s) ← m.emitted? o s
    let compiled := m.compileSource (o.config mode) source s
    let binary ← compiled.result.toOption
    let e ← errorOf? (m.tryOut (o.config mode) binary compiled.state).result
    return .trial e

/-- That a validation has come to its end. -/
def Completes (r : ValidationResult) : Prop :=
  ∃ mode source, Mode.ofName? o.mode = some mode ∧ (m.prepare o s).result = .ok source ∧
    (m.validate (o.config mode) source (m.prepare o s).state).result = .ok r

end Fault

/-! ### The errors of a stage -/

section Reports

variable {σ : Type} {m : Machine σ} {s : σ}

variable {config : ValidationConfig} {e : TrialError}

end Reports

section Run

variable {σ : Type} {m : Machine σ} {o : Options} {s : σ}

end Run

end Machine

end WitnessReplay
