import WitnessReplay.Text.Number

/-!
# Command lines

What a command line asks for. Arguments are read from left to right and the first fault decides; a
question for the version or for help is answered where it stands, so that faults behind it do not
matter. An option that takes a value takes it from behind an equals sign or from the next argument,
and is given once at most. Behind a double hyphen no argument is an option.
-/

namespace WitnessReplay

/-- The options that take a value. -/
inductive ValueOption
  | witness
  | mode
  | trials
  | timeoutSecs
  | cc
  | emit
deriving DecidableEq, Repr

/-- The options that take none. -/
inductive Flag
  | dumpTransitions
  | verbose
  | version
  | help
deriving DecidableEq, Repr

/-- What is wrong with a command line. -/
inductive UsageError
  | unknownOption (text : String)
  | missingValue (option : String)
  | unexpectedValue (option : String)
  | invalidValue (option value : String)
  | repeated (option : String)
  | extraArgument (text : String)
  | missingArgument (name : String)
deriving DecidableEq, Repr

/-- The wording of a fault. -/
def UsageError.message : UsageError → String
  | unknownOption text => "unexpected argument '" ++ text ++ "' found"
  | missingValue option => "a value is required for '" ++ option ++ "' but none was supplied"
  | unexpectedValue option => "unexpected value for '" ++ option ++ "' found"
  | invalidValue option value => "invalid value '" ++ value ++ "' for '" ++ option ++ "'"
  | repeated option => "the argument '" ++ option ++ "' cannot be used multiple times"
  | extraArgument text => "unexpected argument '" ++ text ++ "' found"
  | missingArgument name => "the following required argument was not provided: " ++ name

/-- What a validation is asked to do. -/
structure Options where
  input : String
  witness : String
  mode : String
  trials : UInt32
  timeoutSecs : Nat
  cc : String
  /-- Where to write the instrumented program. -/
  emit : Option String
  /-- Whether to print the steps of the witness. -/
  dumpTransitions : Bool
deriving DecidableEq, Repr

/-- What a command line asks for. -/
inductive Request
  | validate (options : Options)
  | version
  | help
deriving DecidableEq, Repr

/-- What a command line has given so far. -/
structure Given where
  input : Option String
  witness : Option String
  mode : Option String
  trials : Option UInt32
  timeoutSecs : Option Nat
  cc : Option String
  emit : Option String
  dumpTransitions : Bool
deriving DecidableEq, Repr

namespace ValueOption

/-- The options by name. Two names stand for the witness. -/
def names : List (String × ValueOption) :=
  [("witness", witness), ("graphml-witness", witness), ("mode", mode), ("trials", trials),
    ("timeout-secs", timeoutSecs), ("cc", cc), ("emit", emit)]

end ValueOption

namespace Flag

/-- The flags by name. -/
def names : List (String × Flag) :=
  [("dump-transitions", dumpTransitions), ("verbose", verbose), ("version", version),
    ("help", help)]

/-- The flags that are a single letter. -/
def letters : List (Char × Flag) :=
  [('v', verbose), ('V', version), ('h', help)]

end Flag

namespace Given

/-- Nothing. -/
def nothing : Given := ⟨none, none, none, none, none, none, none, false⟩

/-- Adds a value that must not be there yet. -/
def once {α : Type} (name : String) (old : Option α) (new : Option α) (value : String)
    (put : Option α → Given) : Except UsageError Given :=
  match new with
  | none => .error (.invalidValue name value)
  | some a => if old.isSome then .error (.repeated name) else .ok (put (some a))

/-- A path, which is not empty. -/
def path? (value : String) : Option String :=
  if value.isEmpty then none else some value

/-- A number of trials. -/
def trials? (value : String) : Option UInt32 :=
  match Text.int64? value.toList with
  | some n => if 0 ≤ n ∧ n.toNat < UInt32.size then some (UInt32.ofNat n.toNat) else none
  | none => none

/-- Adds the value of an option. -/
def put (g : Given) (name : String) (value : String) : ValueOption → Except UsageError Given
  | .witness => once name g.witness (path? value) value fun v => { g with witness := v }
  | .mode => once name g.mode (some value) value fun v => { g with mode := v }
  | .trials => once name g.trials (trials? value) value fun v => { g with trials := v }
  | .timeoutSecs =>
    once name g.timeoutSecs (Text.nat64? value.toList) value fun v => { g with timeoutSecs := v }
  | .cc => once name g.cc (some value) value fun v => { g with cc := v }
  | .emit => once name g.emit (path? value) value fun v => { g with emit := v }

/-- Adds an argument that is no option. -/
def putInput (g : Given) (text : String) : Except UsageError Given :=
  match g.input with
  | some _ => .error (.extraArgument text)
  | none =>
    match path? text with
    | none => .error (.invalidValue "INPUT.c" text)
    | some p => .ok { g with input := some p }

/-- Adds a flag, unless it asks a question. -/
def raise (g : Given) (name : String) : Flag → Except UsageError (Given ⊕ Request)
  | .dumpTransitions =>
    if g.dumpTransitions then .error (.repeated name)
    else .ok (.inl { g with dumpTransitions := true })
  | .verbose => .ok (.inl g)
  | .version => .ok (.inr .version)
  | .help => .ok (.inr .help)

/-- Adds the flags of a cluster of letters, up to one that asks a question. -/
def raiseLetters (g : Given) : List Char → Except UsageError (Given ⊕ Request)
  | [] => .ok (.inl g)
  | c :: rest =>
    match Flag.letters.lookup c with
    | none => .error (.unknownOption (String.ofList ['-', c]))
    | some flag =>
      match g.raise (String.ofList ['-', c]) flag with
      | .ok (.inl g) => g.raiseLetters rest
      | answer => answer

/-- The options that a command line gives, with the standard ones in place of those that it leaves
out. -/
def options (g : Given) : Except UsageError Options :=
  match g.input, g.witness with
  | none, _ => .error (.missingArgument "<INPUT.c>")
  | _, none => .error (.missingArgument "--witness <WITNESS.graphml>")
  | some input, some witness =>
    .ok {
      input
      witness
      mode := g.mode.getD "normal"
      trials := g.trials.getD 100
      timeoutSecs := g.timeoutSecs.getD 10
      cc := g.cc.getD "gcc"
      emit := g.emit
      dumpTransitions := g.dumpTransitions }

/-- Adds arguments none of which is an option. -/
def readInputs (g : Given) : List String → Except UsageError Given
  | [] => .ok g
  | text :: rest => (g.putInput text).bind fun g => g.readInputs rest

end Given

/-- An argument by its form. -/
inductive ArgumentForm
  | endOfOptions
  /-- A name, with what stands behind an equals sign. -/
  | long (name : String) (value : Option String)
  | letters (cs : List Char)
  | plain
deriving DecidableEq, Repr

/-- The form of an argument. A single hyphen is no option. -/
def ArgumentForm.of (text : String) : ArgumentForm :=
  match text.toList with
  | ['-', '-'] => endOfOptions
  -- only the first equals sign divides
  | '-' :: '-' :: body =>
    let name := String.ofList (body.takeWhile (· ≠ '='))
    match body.dropWhile (· ≠ '=') with
    | _ :: value => long name (some (String.ofList value))
    | [] => long name none
  | '-' :: c :: cs => letters (c :: cs)
  | _ => plain

/-- Reads arguments behind those that gave `g`. -/
def Given.read (g : Given) (arguments : List String) : Except UsageError Request :=
  match arguments with
  | [] => g.options.map .validate
  | text :: rest =>
    match ArgumentForm.of text with
    | .endOfOptions => do
      let g ← g.readInputs rest
      g.options.map .validate
    | .plain => do
      let g ← g.putInput text
      g.read rest
    | .letters cs => do
      match ← g.raiseLetters cs with
      | .inl g => g.read rest
      | .inr answer => return answer
    | .long name value =>
      let shown := "--" ++ name
      match ValueOption.names.lookup name, Flag.names.lookup name with
      | some option, _ =>
        match value, rest with
        | some value, rest => do
          let g ← g.put shown value option
          g.read rest
        | none, value :: rest =>
          -- what looks like an option is no value, not even a negative number
          if ArgumentForm.of value = .plain then do
            let g ← g.put shown value option
            g.read rest
          else .error (.missingValue shown)
        | none, [] => .error (.missingValue shown)
      | none, some flag =>
        if value.isSome then .error (.unexpectedValue shown)
        else do
          match ← g.raise shown flag with
          | .inl g => g.read rest
          | .inr answer => return answer
      | none, none => .error (.unknownOption shown)

/-- What a command line asks for. -/
def Request.ofArguments? (arguments : List String) : Except UsageError Request :=
  Given.nothing.read arguments

end WitnessReplay
