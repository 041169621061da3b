import WitnessReplay.Host.Shell.Format
import WitnessReplay.Host.Shell.Option

/-!
# Tools on files

The small programs that copy, remove and make files. Each takes its arguments and gives its
status. A problem with a file is reported on the standard error and does not keep a tool from going
on with the next file.
-/

namespace WitnessReplay.Shell

/-- Runs a tool on its arguments one by one. It succeeds if it succeeds on all of them. -/
def onEach (each : List Char → Action Bool) : List (List Char) → Action Nat
  | [] => return 0
  | argument :: rest => do
    let fine ← each argument
    let status ← onEach each rest
    return if fine then status else 1

/-- Reports a problem with a file. -/
def reportFile (command : String) (file : List Char) (cause : FileError) : Action Bool := do
  complainOf command [file, causeOf cause]
  return false

/-- Reports what could not be done to a file. -/
def reportFailure (command attempted : String) (file : List Char) (cause : FileError) :
    Action Bool :=
  reportFile command (ofText (attempted ++ " '") ++ file ++ ['\'']) cause

/-- The content of the file of a name. The file of the input has what remains of it. -/
def fileContent (name : List Char) : Action (Except FileError (List Char)) := do
  let p ← get
  if p.entry? name = some (.device (.stream 0)) then return .ok (← takeInput)
  return do
    let path ← p.locate name
    return ofBytes (← p.shared.files.read path)

/-- The content that an operand stands for: that of a file, or with a hyphen what remains of the
input. -/
def contentOf (name : List Char) : Action (Except FileError (List Char)) :=
  if name = ['-'] then return .ok (← takeInput) else fileContent name

/-- The last name of a path as it is written. -/
def baseName (cs : List Char) : List Char :=
  let trimmed := (cs.reverse.dropWhile (· == '/')).reverse
  if trimmed.isEmpty then (if cs.isEmpty then [] else ['/'])
  else (trimmed.reverse.takeWhile (· ≠ '/')).reverse

/-- Where a copy under a name goes: into the directory of that name, or to that name itself. -/
def destination (p : Process) (source target : List Char) : List Char :=
  if p.entry? target = some .directory then target ++ '/' :: baseName source else target

/-- Copies a file, with its permissions if the copy is new. A device is copied by what is read of
it. -/
def copy (source target : List Char) : Action Bool := do
  let p ← get
  let target := destination p source target
  match p.locate source, p.locateNew target with
  | .error e, _ => reportFailure "cp" "cannot stat" source e
  | _, .error e => reportFailure "cp" "cannot create" target e
  | .ok origin, .ok place =>
    match p.shared.files.find? origin, p.shared.files.read origin with
    | some entry, .ok content =>
      let change (fs : FileSystem) : Except FileError FileSystem :=
        match entry.mode?, fs.find? place with
        | none, _ => fs.write place content
        | some _, none => .ok (fs.set place entry)
        | some _, some old =>
          -- a copy over something keeps the permissions that stood there
          match old.mode? with
          | some mode => .ok (fs.set place (entry.withMode mode))
          | none => fs.write place content
      match ← tryFiles change with
      | .ok () => return true
      | .error e => reportFailure "cp" "cannot create" target e
    | _, .error e => reportFailure "cp" "cannot stat" source e
    | none, .ok _ => reportFailure "cp" "cannot stat" source .notFound

/-- Copies files to the last of the arguments. -/
def cp (arguments : List (List Char)) : Action Nat :=
  withOptions "cp" 1 ⟨"abdfHilLnpPrRsTuvxZ", "St"⟩ arguments fun given => do
    match given.operands.reverse with
    | target :: source :: more => onEach (copy · target) (source :: more).reverse
    | _ =>
      complainOf "cp" [ofText "missing file operand"]
      return 1

/-- Whether a path lies in a directory, or is it. -/
def liesIn (directory path : FilePath) : Bool :=
  directory.isPrefixOf path

/-- Removes files, and with `r` directories with all that is in them. -/
def rm (arguments : List (List Char)) : Action Nat :=
  withOptions "rm" 1 ⟨"dfiIrRv", ""⟩ arguments fun given => do
  let report := reportFailure "rm" "cannot remove"
  onEach (fun name => do
    let p ← get
    match p.locate name with
    | .error e => if given.has 'f' then return true else report name e
    | .ok path =>
      match p.shared.files.find? path with
      | none => if given.has 'f' then return true else report name .notFound
      | some .directory =>
        if given.has 'r' || given.has 'R' then
          let kept := p.shared.files.entries.filter fun (other, _) => !liesIn path other
          set { p with shared.files := ⟨kept⟩ }
          return true
        else report name .isDirectory
      | some _ =>
        set { p with shared.files := p.shared.files.erase path }
        return true) given.operands

/-- Makes files that do not exist. -/
def touch (arguments : List (List Char)) : Action Nat :=
  withOptions "touch" 1 ⟨"acfhm", "drt"⟩ arguments fun given =>
  onEach (fun name => do
    let p ← get
    match p.locateNew name with
    | .error e => reportFailure "touch" "cannot touch" name e
    | .ok path =>
      if (p.shared.files.find? path).isSome || given.has 'c' then return true
      else
        match ← tryFiles (·.write path []) with
        | .ok () => return true
        | .error e => reportFailure "touch" "cannot touch" name e) given.operands

/-- The permissions that a text in octal digits stands for. -/
def octalMode? (cs : List Char) : Option Nat :=
  if !cs.isEmpty && cs.all isOctalDigit then
    some (cs.foldl (fun n d => 8 * n + (d.toNat - '0'.toNat)) 0)
  else none

/-- Permissions changed as a symbolic mode says: for whom, whether they are given, taken or set, and
which. -/
def symbolicMode? (mode : Nat) (cs : List Char) : Option Nat :=
  let isWho (c : Char) := ['u', 'g', 'o', 'a'].contains c
  let who := cs.takeWhile isWho
  let weights := [('u', 64), ('g', 8), ('o', 1)].filter fun (c, _) =>
    who.isEmpty || who.contains 'a' || who.contains c
  let bits (which : List Char) : Nat :=
    [('r', 4), ('w', 2), ('x', 1)].foldl (fun n (c, v) => if which.contains c then n + v else n) 0
  let mask (which : List Char) : Nat := weights.foldl (fun n (_, w) => n + w * bits which) 0
  match cs.dropWhile isWho with
  | '+' :: which => some (mode ||| mask which)
  | '-' :: which => some (mode - (mode &&& mask which))
  | '=' :: which => some (mode - (mode &&& mask ['r', 'w', 'x']) + mask which)
  | _ => none

/-- Changes the permissions of files. -/
def chmod (arguments : List (List Char)) : Action Nat := do
  let isOption (word : List Char) : Bool :=
    word.head? == some '-' && 1 < word.length && word.tail.all fun c => "Rcfv".contains c
  match arguments.dropWhile isOption with
  | how :: names =>
    onEach (fun name => do
      let p ← get
      match p.locate name with
      | .error e => reportFailure "chmod" "cannot access" name e
      | .ok path =>
        match p.shared.files.find? path with
        | some entry =>
          match (octalMode? how).or (symbolicMode? (entry.mode?.getD 0) how) with
          | some mode =>
            set { p with shared.files := p.shared.files.set path (entry.withMode mode) }
            return true
          | none =>
            complainOf "chmod" [ofText "invalid mode", how]
            return false
        | none => reportFailure "chmod" "cannot access" name .notFound) names
  | [] =>
    complainOf "chmod" [ofText "missing operand"]
    return 1

end WitnessReplay.Shell
