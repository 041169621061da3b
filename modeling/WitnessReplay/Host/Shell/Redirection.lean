import WitnessReplay.Host.Shell.FileTool

/-!
# Redirections

Where the descriptors of a command lead.
-/

namespace WitnessReplay.Shell

/-- Lets a descriptor lead elsewhere. -/
def lead (descriptor : Nat) (sink : Sink) : Action Unit :=
  modify fun p => { p with sinks := (descriptor, sink) :: p.sinks.filter (·.1 != descriptor) }

/-- Where writing to something goes. The file of a standard stream stands for what its descriptor
leads to. -/
def Process.sinkTo (p : Process) (path : FilePath) : Sink :=
  match p.shared.files.find? path with
  | some (.device (.stream descriptor)) => (p.sinks.lookup descriptor).getD .nowhere
  | some (.device _) => .nowhere
  | _ => .file path

/-- Lets a descriptor lead to a file, from its start or from its end. -/
def leadToFile (appends : Bool) (descriptor : Nat) (name : List Char) : Action Bool := do
  let p ← get
  let opened : Except FileError (FilePath × FileSystem) := do
    let path ← p.locateNew name
    let fs := p.shared.files
    return (path, ← if appends then fs.append path [] else fs.write path [])
  match opened with
  | .ok (path, files) =>
    set { p with shared.files := files }
    lead descriptor (p.sinkTo path)
    return true
  | .error e =>
    complain (ofText "cannot create " ++ name ++ ofText ": " ++ shellCauseOf true e)
    return false

/-- Lets the input come from a file. -/
def leadFromFile (name : List Char) : Action Bool := do
  match ← fileContent name with
  | .ok content =>
    modify fun p => { p with shared.input := content }
    return true
  | .error e =>
    complain (ofText "cannot open " ++ name ++ ofText ": " ++ shellCauseOf false e)
    return false

/-- Lets a descriptor lead where another one leads, or nowhere. -/
def leadLike (descriptor : Nat) (other : List Char) : Action Bool := do
  if other = ['-'] then
    lead descriptor .nowhere
    return true
  else
    let p ← get
    match (Text.digits? other).bind fun n => p.sinks.lookup n with
    | some sink => lead descriptor sink; return true
    | none => return descriptor == 0

end WitnessReplay.Shell
