import WitnessReplay.Host.Shell.Arithmetic
import WitnessReplay.Host.Shell.Builtin
import WitnessReplay.Host.Shell.Expansion
import WitnessReplay.Host.Shell.Parser
import WitnessReplay.Host.Shell.Program
import WitnessReplay.Host.Shell.Redirection

/-!
# Running scripts

What a command does. Each function takes a bound on the depth of its calls, which also bounds the
rounds of a loop. A script that comes to the bound counts as one that never ends, and is cut off.
-/

namespace WitnessReplay.Shell

/-- What all arguments of the script come to in a word. -/
def allArguments (joins isQuoted : Bool) (arguments : List (List Char)) : List Mark :=
  if isQuoted && joins then marksOf true (List.intercalate [' '] arguments)
  else List.intercalate [.cut] (arguments.map (marksOf isQuoted))

/-- Whether a piece stands for all arguments, each as a field of its own. -/
def Piece.isAllArguments : Piece → Bool
  | .parameter ['@'] .plain true => true
  | _ => false

/-- The fields that an expanded word makes. One that only stands for all arguments makes none where
there are none. -/
def wordFields (p : Process) (word : Word) (marks : List Mark) : List (List Char) :=
  if word.any Piece.isAllArguments && p.arguments.isEmpty && marks.all (· == .anchor) then []
  else fields marks

/-- Whether a command is run to make a word. -/
def Piece.isSubstitution : Piece → Bool
  | .substitution .. => true
  | _ => false

/-- The word that stands for a parameter without a value. -/
def fallbackWord (text : List Char) : Word :=
  (documentPieces (text.filter (· ≠ '"'))).getD []

/-- A text without the line ends at its end. -/
def dropFinalNewlines (cs : List Char) : List Char :=
  (cs.reverse.dropWhile (· == '\n')).reverse

mutual

/-- Expands a piece of a word. -/
def expandPiece (bound : Nat) (piece : Piece) : Action (List Mark) :=
  match bound with
  | 0 => hang
  | n + 1 =>
    match piece with
    | .literal c => return [.plain c]
    | .quoted text => return marksOf true text
    | .substitution script isQuoted => do
      let (output, status) ← collecting (asSubshell (runScript n script))
      modify fun p => { p with status }
      return marksOf isQuoted (dropFinalNewlines output)
    | .arithmetic text isQuoted => do
      let body := joined (← expandWord n (fallbackWord text))
      let p ← get
      let value (name : List Char) : Int :=
        ((p.bindings.lookup name).bind testNumber?).getD 0
      match Arithmetic.evaluate? value body with
      | some a => return marksOf isQuoted (toString a).toList
      | none =>
        complain (ofText "arithmetic expression: " ++ body)
        throw (.exits 2)
    | .parameter name fallback isQuoted => do
      let p ← get
      let whole := name = ['@'] ∨ name = ['*']
      let value? := if whole then some (List.intercalate [' '] p.arguments) else p.parameter? name
      let marks :=
        if whole then allArguments (name = ['*']) isQuoted p.arguments
        else marksOf isQuoted (value?.getD [])
      match fallback with
      | .plain => return marks
      | .length => return marksOf isQuoted (ofNat (value?.getD []).length)
      | .otherwise empty text =>
        let missing := value?.isNone || (empty && value? == some [])
        if missing then return marksOf isQuoted (joined (← expandWord n (fallbackWord text)))
        else return marks
      | .whenSet empty text =>
        let missing := value?.isNone || (empty && value? == some [])
        if missing then return marksOf isQuoted []
        else return marksOf isQuoted (joined (← expandWord n (fallbackWord text)))

/-- Expands a word. -/
def expandWord (bound : Nat) (word : Word) : Action (List Mark) :=
  match bound with
  | 0 => hang
  | n + 1 => do
    return (← word.mapM (expandPiece n)).flatten

/-- Expands words into fields. -/
def expandFields (bound : Nat) (words : List Word) : Action (List (List Char)) :=
  match bound with
  | 0 => hang
  | n + 1 => do
    let results ← words.mapM fun word => do
      let marks ← expandWord n word
      return wordFields (← get) word marks
    return results.flatten

/-- Carries out redirections in order, up to the first that fails. -/
def redirectAll (bound : Nat) (redirects : List Redirect) : Action Bool :=
  match bound with
  | 0 => hang
  | n + 1 =>
    match redirects with
    | [] => return true
    | r :: rest => do
      let done ← match r.target with
        | .toFile w => do leadToFile false r.descriptor (joined (← expandWord n w))
        | .appendTo w => do leadToFile true r.descriptor (joined (← expandWord n w))
        | .fromFile w => do leadFromFile (joined (← expandWord n w))
        | .sameAs w => do leadLike r.descriptor (joined (← expandWord n w))
        | .document w => do
          let text := joined (← expandWord n w)
          modify fun p => { p with shared.input := text }
          return true
      if done then redirectAll n rest else return false

/-- Runs a command with redirections, which end with it. -/
def runRedirected (bound : Nat) (redirects : List Redirect) (body : Action Nat) : Action Nat :=
  match bound with
  | 0 => hang
  | n + 1 =>
    if redirects.isEmpty then body
    else do
      let before ← get
      let result ← attempt do
        if ← redirectAll n redirects then body else return 2
      let replaced := redirects.any fun r => r.descriptor == 0
      modify fun p => { p with
        sinks := before.sinks
        shared.input := if replaced then before.shared.input else p.shared.input }
      match result with
      | .ok status => return status
      | .error stop => throw stop

/-- Assigns the values of words to variables. -/
def assignAll (bound : Nat) (assignments : List (List Char × Word)) : Action Unit :=
  match bound with
  | 0 => hang
  | n + 1 =>
    match assignments with
    | [] => pure ()
    | (name, word) :: rest => do
      let value := joined (← expandWord n word)
      modify fun p => p.assign name value
      assignAll n rest

/-- Runs a program that comes with the system. -/
def execute (bound : Nat) (program : String) (arguments : List (List Char)) : Action Nat :=
  match bound with
  | 0 => hang
  | n + 1 => do
    -- to start a program takes some time, so a loop of starts meets the deadline
    spend 1
    modify fun p => { p with isShell := false }
    match tool? program with
    | some action => action arguments
    | none => runShell n arguments

/-- Runs the program of a command as a process of its own. -/
def runProgram (bound : Nat) (command : List Char) (arguments : List (List Char)) : Action Nat :=
  match bound with
  | 0 => hang
  | n + 1 => do
    match findProgram (← get) command with
    | .ok (program, leading) =>
      let body := execute n program (leading ++ arguments)
      -- a tool needs no number of its own, as nothing in it can ask for one
      if (tool? program).isSome then asSubshell body else asChild body
    -- a text without a first line for the system is a script of the shell
    | .error .notExecutable => asChild (execute n "sh" (command :: arguments))
    | .error .notFound =>
      complain (command ++ ofText ": not found")
      return 127
    | .error e =>
      complain (command ++ ofText ": " ++ causeOf e)
      return 126

/-- Runs a command by its name: a command of the shell, or a program. -/
def invoke (bound : Nat) (command : List Char) (arguments : List (List Char)) : Action Nat :=
  match bound with
  | 0 => hang
  | n + 1 =>
    match toText command, arguments with
    | "exec", [] => return 0
    | "exec", program :: rest => do
      match findProgram (← get) program with
      | .error .notFound =>
        complainOf "exec" [program, ofText "not found"]
        throw (.exits 127)
      | _ => throw (.exits (← runProgram n program rest))
    | name, _ =>
      match builtin? name with
      | some action => action arguments
      | none => runProgram n command arguments

/-- Runs the shell on its arguments: a script in a file, in an argument or in the input. -/
def runShell (bound : Nat) (arguments : List (List Char)) : Action Nat :=
  match bound with
  | 0 => hang
  | n + 1 => do
    let (letters, rest) := splitOptions arguments
    match letters.find? fun c => !shellOptions.contains c with
    | some c =>
      complainOf "sh" [['0'], ofText "Illegal option -" ++ [c]]
      throw (.exits 2)
    | none => pure ()
    modify fun p => { p with
      bindings := p.bindings.filter fun v => p.exported.contains v.1
      stopsOnFailure := letters.contains 'e'
      status := 0
      line := 0
      isShell := true }
    if letters.contains 'c' then
      modify fun p => { p with
        name := (rest.drop 1).headD (ofText "sh")
        arguments := rest.drop 2 }
      runScript n (rest.headD [])
    else
      match rest with
      | [] => do
        modify fun p => { p with name := ofText "sh", arguments := [] }
        runScript n (← takeInput)
      | file :: rest => do
        modify fun p => { p with name := ofText "sh" }
        match ← fileContent file with
        | .ok script =>
          modify fun p => { p with name := file, arguments := rest }
          runScript n script
        | .error e =>
          complain (ofText "cannot open " ++ file ++ ofText ": " ++ shellCauseOf false e)
          return 2

/-- Runs the text of a script line by line. One that is not well formed ends the shell. -/
def runScript (bound : Nat) (text : List Char) : Action Nat :=
  match bound with
  | 0 => hang
  | n + 1 => do
    let script := parseScript text
    let status ← runLines n script.lines
    if script.complete then return status
    else
      complain (ofText "Syntax error")
      throw (.exits 2)

/-- Runs the lines of a script. -/
def runLines (bound : Nat) (lines : List Command) : Action Nat :=
  match bound with
  | 0 => hang
  | n + 1 => do
    match lines with
    | [] => return (← get).status
    | line :: rest =>
      let _ ← run n line
      runLines n rest

/-- Runs rounds of a loop, where the last one came to a status. -/
def runLoop (bound : Nat) (whileFails : Bool) (cond body : Command) (last : Nat) : Action Nat :=
  match bound with
  | 0 => hang
  | n + 1 => do
    let c ← tested (run n cond)
    if (c == 0) == whileFails then
      modify fun p => { p with status := last }
      return last
    else
      match ← attempt (run n body) with
      | .ok status => runLoop n whileFails cond body status
      | .error (.breaks 0) => return 0
      | .error (.breaks (k + 1)) => throw (.breaks k)
      | .error (.continues 0) => runLoop n whileFails cond body 0
      | .error (.continues (k + 1)) => throw (.continues k)
      | .error stop => throw stop

/-- Runs a body once for each of some values of a variable. -/
def runForEach (bound : Nat) (name : List Char) (values : List (List Char)) (body : Command)
    (last : Nat) : Action Nat :=
  match bound with
  | 0 => hang
  | n + 1 =>
    match values with
    | [] => return last
    | value :: rest => do
      modify fun p => p.assign name value
      match ← attempt (run n body) with
      | .ok status => runForEach n name rest body status
      | .error (.breaks 0) => return 0
      | .error (.breaks (k + 1)) => throw (.breaks k)
      | .error (.continues 0) => runForEach n name rest body 0
      | .error (.continues (k + 1)) => throw (.continues k)
      | .error stop => throw stop

/-- Runs a command that is a list of words, with assignments before them. -/
def runSimple (bound : Nat) (line : Nat) (assignments : List (List Char × Word))
    (words : List Word) (redirects : List Redirect) : Action Nat :=
  match bound with
  | 0 => hang
  | n + 1 => do
    modify fun p => { p with line }
    match ← expandFields n words with
    | [] =>
      let substitutes := (assignments.map (·.2) ++ words).any (·.any Piece.isSubstitution)
      runRedirected n redirects do
        assignAll n assignments
        let p ← get
        return if substitutes then p.status else 0
    | command :: arguments =>
      if command = ofText "exec" ∧ arguments = [] then
        let done ← redirectAll n redirects
        return if done then 0 else 2
      else runRedirected n redirects do
        if assignments.isEmpty then invoke n command arguments
        else
          let before ← get
          assignAll n assignments
          modify fun p => { p with exported := assignments.map (·.1) ++ p.exported }
          let status ← invoke n command arguments
          let names := assignments.map (·.1)
          modify fun p => { p with
            bindings := before.bindings.filter (fun v => names.contains v.1)
              ++ p.bindings.filter fun v => !names.contains v.1
            exported := before.exported }
          return status

/-- Runs a command, and gives its status. -/
def run (bound : Nat) (command : Command) : Action Nat :=
  match bound with
  | 0 => hang
  | n + 1 =>
    match command with
    | .nothing => do return (← get).status
    | .simple line assignments words redirects => do
      finish (← runSimple n line assignments words redirects)
    | .sequence first second => do
      let _ ← run n first
      run n second
    | .andThen first second => do
      let status ← tested (run n first)
      if status = 0 then run n second else return status
    | .orElse first second => do
      let status ← tested (run n first)
      if status = 0 then return 0 else run n second
    | .negate body => do
      let status ← tested (run n body)
      let opposite := if status = 0 then 1 else 0
      modify fun p => { p with status := opposite }
      return opposite
    | .pipe left right => do
      let (output, _) ← collecting (asSubshell (run n left))
      finish (← withInput output (asSubshell (run n right)))
    | .branch cond yes no => do
      let status ← tested (run n cond)
      if status = 0 then run n yes
      else
        match no with
        | .nothing =>
          modify fun p => { p with status := 0 }
          return 0
        | _ => run n no
    | .loop whileFails cond body => runLoop n whileFails cond body 0
    | .forEach name words body => do
      let p ← get
      let values ← match words with
        | some words => expandFields n words
        | none => pure p.arguments
      runForEach n name values body 0
    | .subshell body => do
      finish (← asSubshell (run n body))
    | .redirected body redirects => runRedirected n redirects (run n body)

end

/-- How deep the calls of a script may go. -/
def depthBound : Nat := 10000

end WitnessReplay.Shell
