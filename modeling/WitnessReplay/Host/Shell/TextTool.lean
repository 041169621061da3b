import WitnessReplay.Host.Shell.FileTool
import WitnessReplay.Text.Blank
import WitnessReplay.Text.Pattern

/-!
# Tools on text

The small programs that print, count and search text.
-/

namespace WitnessReplay.Shell

/-- The operands of a tool that reads its input where none are given. -/
def GivenOptions.filesOrInput (given : GivenOptions) : List (List Char) :=
  if given.operands.isEmpty then [['-']] else given.operands

/-- Prints the content of files. -/
def cat (arguments : List (List Char)) : Action Nat :=
  withOptions "cat" 1 ⟨"AbeEnstTuv", ""⟩ arguments fun given =>
  onEach (fun name => do
    match ← contentOf name with
    | .ok content => say content; return true
    | .error e => reportFile "cat" name e) given.filesOrInput

/-- Prints as a format says. -/
def printf (arguments : List (List Char)) : Action Nat := do
  let arguments := if arguments.head? = some ['-', '-'] then arguments.tail else arguments
  match arguments with
  | template :: rest =>
    match format? template rest with
    | some (text, faults) =>
      say text
      for fault in faults do
        complainOf "printf" [fault, ofText "expected numeric value"]
      return if faults.isEmpty then 0 else 1
    | none =>
      complainOf "printf" [ofText "invalid directive"]
      return 1
  | [] =>
    complainOf "printf" [ofText "usage: printf format [arg ...]"]
    return 2

/-- How many words a text has. -/
def countWords (cs : List Char) : Nat :=
  (Text.words cs).length

/-- The counts that letters ask for, of lines, words and bytes in this order. -/
def counts (letters : List Char) (cs : List Char) : List Nat :=
  let wanted (letter : Char) := letters.isEmpty || letters.contains letter
  (if wanted 'l' then [cs.count '\n'] else []) ++ (if wanted 'w' then [countWords cs] else [])
    ++ (if wanted 'c' || letters.contains 'm' then [cs.length] else [])

/-- A line of counts, in columns of a width, with the name that they belong to. -/
def countLine (width : Nat) (ns : List Nat) (name : List Char) : List Char :=
  let columns := ns.map fun n =>
    let digits := ofNat n
    List.replicate (width - digits.length) ' ' ++ digits
  List.intercalate [' '] (columns ++ (if name.isEmpty then [] else [name])) ++ ['\n']

/-- Counts lines, words and bytes, and sums them up where there are several files. -/
def wc (arguments : List (List Char)) : Action Nat :=
  withOptions "wc" 1 ⟨"clmwL", ""⟩ arguments fun given => do
  let files := given.operands
  let contents ← given.filesOrInput.mapM fun name => return (name, ← contentOf name)
  let found := contents.filterMap fun (name, content) => content.toOption.map fun cs => (name, cs)
  let total := found.foldl (fun n (_, cs) => n + cs.length) 0
  let columns := (counts given.letters []).length
  let width := if columns = 1 ∧ files.length ≤ 1 then 1 else (ofNat total).length
  let status ← onEach (fun name => do
    match contents.lookup name with
    | some (.ok cs) =>
      say (countLine width (counts given.letters cs) (if files.isEmpty then [] else name))
      return true
    | some (.error e) => reportFile "wc" name e
    | none => return false) given.filesOrInput
  if 1 < files.length then
    let add (sums : List Nat) (ns : List Nat) : List Nat := List.zipWith (· + ·) sums ns
    let sums := found.foldl (fun sums (_, cs) => add sums (counts given.letters cs))
      (List.replicate columns 0)
    say (countLine width sums (ofText "total"))
  return status

/-- The lines of a text, each with the line end behind it. -/
def wholeLines : List Char → List (List Char)
  | [] => []
  | c :: rest =>
    if c = '\n' then ['\n'] :: wholeLines rest
    else
      match wholeLines rest with
      | [] => [[c]]
      | l :: ls => (c :: l) :: ls

/-- Prints the lines that contain a text, or with `v` those that do not. The text is taken as it
stands, but for marks that bind it to the start or the end of a line. -/
def grep (arguments : List (List Char)) : Action Nat :=
  withOptions "grep" 2 ⟨"EFGPivwxclLoqshnHrRabyzIUZ", "mABC"⟩ arguments fun given => do
  match given.operands with
  | [] => return 2
  | wanted :: files =>
    let atStart := wanted.head? == some '^'
    let wanted := if atStart then wanted.tail else wanted
    let atEnd := wanted.getLast? == some '$'
    let wanted := if atEnd then wanted.dropLast else wanted
    let fits (l : List Char) : Bool :=
      if atStart && atEnd then l == wanted
      else if atStart then wanted.isPrefixOf l
      else if atEnd then wanted.isSuffixOf l
      else (Text.Pattern.cut wanted l).isSome
    let names := if files.isEmpty then [['-']] else files
    let results ← names.mapM fun name => do
      match ← contentOf name with
      | .error e =>
        let _ ← reportFile "grep" name e
        return (name, none)
      | .ok content =>
        let lines := (wholeLines content).map fun l => l.filter (· ≠ '\n')
        return (name, some (lines.filter fun l => fits l != given.has 'v'))
    let front (name : List Char) := if 1 < files.length then name ++ [':'] else []
    let found := results.any fun (_, lines) => lines.any fun ls => !ls.isEmpty
    unless given.has 'q' do
      for (name, lines) in results do
        match lines with
        | none => pure ()
        | some ls =>
          if given.has 'c' then say (front name ++ ofNat ls.length ++ ['\n'])
          else say (ls.flatMap fun l => front name ++ l ++ ['\n'])
    return if results.any fun (_, lines) => lines.isNone then 2 else if found then 0 else 1

end WitnessReplay.Shell
