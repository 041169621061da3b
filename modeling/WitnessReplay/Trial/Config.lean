import WitnessReplay.Json.Basic
import WitnessReplay.Trial.Tally

/-!
# Settings of a validation

How many trials are run and for how long, when they stop, and what compiles the program. Settings
are also written as JSON, with these forms: a record is an object of its fields, or an array of them
in order; a duration allows no other field than its own; the nanoseconds of a duration may exceed a
second, and are then carried over.
-/

namespace WitnessReplay

/-- A length of time, with less than a second in nanoseconds. -/
structure Duration where
  secs : Nat
  nanos : Nat
deriving DecidableEq, Repr

namespace Duration

/-- A length of time in nanoseconds. -/
def toNanos (d : Duration) : Nat :=
  d.secs * 1000000000 + d.nanos

/-- A length of time from seconds and any number of nanoseconds. -/
def normalize (secs nanos : Nat) : Duration :=
  ⟨secs + nanos / 1000000000, nanos % 1000000000⟩

/-- A length of time from milliseconds. -/
def ofMillis (ms : Nat) : Duration :=
  normalize (ms / 1000) (ms % 1000 * 1000000)

end Duration

/-- A compiler: the command and the flags before everything else on its command line. -/
structure CompilerConfig where
  cc : String
  flags : List String
deriving DecidableEq, Repr

/-- The compiler of a validation that names none. -/
def CompilerConfig.standard : CompilerConfig := ⟨"gcc", ["-w", "-pthread"]⟩

/-- The settings of a validation. -/
structure ValidationConfig where
  mode : Mode
  maxTrials : UInt32
  timeout : Duration
  compiler : CompilerConfig
deriving DecidableEq, Repr

/-- The settings of a validation that sets nothing. -/
def ValidationConfig.standard : ValidationConfig := ⟨.normal, 100, ⟨10, 0⟩, .standard⟩

/-! ### Settings as JSON -/

namespace Json

/-- The values of a record, in the order of its fields, from an object that has them all or from an
array of as many items. With `closed`, an object has no other fields. -/
def record? (closed : Bool) (names : List String) : Json → Option (List Json)
  | array items => if items.length = names.length then some items else none
  | object fields =>
    if closed && fields.any fun (name, _) => !names.contains name then none
    else names.mapM fun name => fields.lookup name
  | _ => none

end Json

/-- Reads a mode: its name, or an object with that name as its only field and nothing under it. -/
def Mode.ofJson? : Json → Option Mode
  | .string s => Mode.ofName? s
  | .object [(s, .null)] => Mode.ofName? s
  | _ => none

/-- Reads a duration. Its seconds, after the carry, are a number of 64 bits. -/
def Duration.ofJson? (j : Json) : Option Duration :=
  match j.record? true ["secs", "nanos"] with
  | some [secs, nanos] => do
    let secs ← secs.natBelow? UInt64.size
    let nanos ← nanos.natBelow? UInt32.size
    let d := Duration.normalize secs nanos
    if d.secs < UInt64.size then some d else none
  | _ => none

/-- Reads a compiler. -/
def CompilerConfig.ofJson? (j : Json) : Option CompilerConfig :=
  match j.record? false ["cc", "flags"] with
  | some [cc, flags] => do
    let cc ← cc.string?
    let flags ← (← flags.array?).mapM Json.string?
    some ⟨cc, flags⟩
  | _ => none

/-- Reads the settings of a validation. -/
def ValidationConfig.ofJson? (j : Json) : Option ValidationConfig :=
  match j.record? false ["mode", "max_trials", "timeout", "compiler"] with
  | some [mode, maxTrials, timeout, compiler] => do
    let mode ← Mode.ofJson? mode
    let maxTrials ← maxTrials.natBelow? UInt32.size
    let timeout ← Duration.ofJson? timeout
    let compiler ← CompilerConfig.ofJson? compiler
    some ⟨mode, UInt32.ofNat maxTrials, timeout, compiler⟩
  | _ => none

/-- Writes the settings of a validation. -/
def ValidationConfig.toJson (c : ValidationConfig) : Json :=
  .object [
    ("mode", .string c.mode.name),
    ("max_trials", .nat c.maxTrials.toNat),
    ("timeout", .object [("secs", .nat c.timeout.secs), ("nanos", .nat c.timeout.nanos)]),
    ("compiler", .object [
      ("cc", .string c.compiler.cc),
      ("flags", .array (c.compiler.flags.map .string))])]

end WitnessReplay
