import WitnessReplay.Host.Shell.Lexer

/-!
# Reading shell scripts

A script is a sequence of commands. Each function reads one kind of command off the front of a token
list and takes a bound on the depth of its calls; a script of `n` tokens nests no deeper than a
small multiple of `n`, so the bounds that `parseScript` and `readLine` give are never reached by a
script that is well formed.
-/

namespace WitnessReplay.Shell

/-- A reader of something from the front of a token list. -/
abbrev Reader (α : Type) := List Token → Option (α × List Token)

/-- The text of the word in front, if it is written without quotes. -/
def headWord? : List Token → Option String
  | .word _ w :: _ => (bareText? w).map String.ofList
  | _ => none

/-- The words that have a meaning where a command can begin, and end the command before. -/
def closingWords : List String :=
  ["then", "else", "elif", "fi", "do", "done", "\x7d"]

/-- A token list without the line ends in front. -/
def skipNewlines : List Token → List Token
  | .newline :: rest => skipNewlines rest
  | tokens => tokens

/-- Requires an unquoted word in front. -/
def expectWord (text : String) (tokens : List Token) : Option (List Token) :=
  if headWord? tokens = some text then some tokens.tail else none

/-- Requires an operator in front. -/
def expectOperator (text : String) : List Token → Option (List Token)
  | .operator op :: rest => if op = text then some rest else none
  | _ => none

/-- The variable and the value, if a word is an assignment. -/
def assignment? (w : Word) : Option (List Char × Word) :=
  let before := w.takeWhile (· ≠ .literal '=')
  match w.dropWhile (· ≠ .literal '='), bareText? before with
  | _ :: value, some name => if isName name then some (name, value) else none
  | _, _ => none

/-- A redirection, if one stands in front. -/
def redirect? (tokens : List Token) : Option (Redirect × List Token) :=
  let (given, rest) : Option Nat × List Token := match tokens with
    | .descriptor n :: rest => (some n, rest)
    | _ => (none, tokens)
  match rest with
  | .operator "<<" :: .document body :: rest => some (⟨given.getD 0, .document body⟩, rest)
  | .operator op :: .word _ w :: rest =>
    match op with
    | ">" => some (⟨given.getD 1, .toFile w⟩, rest)
    | ">|" => some (⟨given.getD 1, .toFile w⟩, rest)
    | ">>" => some (⟨given.getD 1, .appendTo w⟩, rest)
    | "<" => some (⟨given.getD 0, .fromFile w⟩, rest)
    | ">&" => some (⟨given.getD 1, .sameAs w⟩, rest)
    | "<&" => some (⟨given.getD 0, .sameAs w⟩, rest)
    | _ => none
  | _ => none

/-- The redirections in front. -/
def redirects (bound : Nat) (tokens : List Token) : List Redirect × List Token :=
  match bound with
  | 0 => ([], tokens)
  | n + 1 =>
    match redirect? tokens with
    | some (r, rest) => (r :: (redirects n rest).1, (redirects n rest).2)
    | none => ([], tokens)

/-- A simple command as far as it has been read. -/
structure Simple where
  assignments : List (List Char × Word)
  words : List Word
  redirects : List Redirect

/-- Reads the rest of a simple command. -/
def simpleRest (bound : Nat) (s : Simple) (tokens : List Token) : Simple × List Token :=
  match bound with
  | 0 => (s, tokens)
  | n + 1 =>
    match redirect? tokens with
    | some (r, rest) => simpleRest n { s with redirects := s.redirects ++ [r] } rest
    | none =>
      match tokens with
      | .word _ w :: rest =>
        match assignment? w with
        | some a =>
          if s.words.isEmpty then simpleRest n { s with assignments := s.assignments ++ [a] } rest
          else simpleRest n { s with words := s.words ++ [w] } rest
        | none => simpleRest n { s with words := s.words ++ [w] } rest
      | _ => (s, tokens)

/-- Reads words up to a token that is none. -/
def wordsRest : List Token → List Word × List Token
  | .word _ w :: rest => (w :: (wordsRest rest).1, (wordsRest rest).2)
  | tokens => ([], tokens)

mutual

/-- Reads commands up to something that can begin none. -/
def readList (bound : Nat) : Reader Command := fun tokens =>
  match bound with
  | 0 => none
  | n + 1 =>
    match skipNewlines tokens with
    | [] => some (.nothing, [])
    | rest =>
      let closes := match rest with
        | .operator _ :: _ => (expectOperator "(" rest).isNone && (redirect? rest).isNone
        | _ => (headWord? rest).any closingWords.contains
      if closes then some (.nothing, rest)
      else do
        let (first, rest) ← readAndOr n rest
        match rest with
        | .newline :: _ => do
          let (more, rest) ← readList n rest
          some (.sequence first more, rest)
        | .operator ";" :: after => do
          let (more, rest) ← readList n after
          some (.sequence first more, rest)
        | _ => some (first, rest)

/-- Reads pipelines between `&&` and `||`. -/
def readAndOr (bound : Nat) : Reader Command := fun tokens =>
  match bound with
  | 0 => none
  | n + 1 => do
    let (first, rest) ← readPipeline n tokens
    readAndOrRest n first rest

/-- Reads the further pipelines, where all before them is `first`. -/
def readAndOrRest (bound : Nat) (first : Command) : Reader Command := fun tokens =>
  match bound with
  | 0 => none
  | n + 1 =>
    match tokens with
    | .operator "&&" :: rest => do
      let (second, rest) ← readPipeline n (skipNewlines rest)
      readAndOrRest n (.andThen first second) rest
    | .operator "||" :: rest => do
      let (second, rest) ← readPipeline n (skipNewlines rest)
      readAndOrRest n (.orElse first second) rest
    | _ => some (first, tokens)

/-- Reads commands between pipes, perhaps negated. -/
def readPipeline (bound : Nat) : Reader Command := fun tokens =>
  match bound with
  | 0 => none
  | n + 1 =>
    match expectWord "!" tokens with
    | some rest => do
      let (body, rest) ← readPipeline n rest
      some (.negate body, rest)
    | none => do
      let (left, rest) ← readCommand n tokens
      match rest with
      | .operator "|" :: rest => do
        let (right, rest) ← readPipeline n (skipNewlines rest)
        some (.pipe left right, rest)
      | _ => some (left, rest)

/-- Reads a command and the redirections behind it. -/
def readCommand (bound : Nat) : Reader Command := fun tokens =>
  match bound with
  | 0 => none
  | n + 1 =>
    match expectOperator "(" tokens with
    | some rest => do
      let (body, rest) ← readList n rest
      let rest ← expectOperator ")" rest
      let (rs, rest) := redirects rest.length rest
      some (.redirected (.subshell body) rs, rest)
    | none =>
      match headWord? tokens with
      | some "\x7b" => do
        let (body, rest) ← readList n tokens.tail
        let rest ← expectWord "\x7d" rest
        let (rs, rest) := redirects rest.length rest
        some (.redirected body rs, rest)
      | some "if" => do
        let (body, rest) ← readBranches n tokens.tail
        let (rs, rest) := redirects rest.length rest
        some (.redirected body rs, rest)
      | some "while" => do
        let (body, rest) ← readLoop n false tokens.tail
        let (rs, rest) := redirects rest.length rest
        some (.redirected body rs, rest)
      | some "until" => do
        let (body, rest) ← readLoop n true tokens.tail
        let (rs, rest) := redirects rest.length rest
        some (.redirected body rs, rest)
      | some "for" => do
        let (body, rest) ← readFor n tokens.tail
        let (rs, rest) := redirects rest.length rest
        some (.redirected body rs, rest)
      | some name =>
        if closingWords.contains name then none
        else readSimple tokens
      | none => readSimple tokens

/-- Reads a simple command, which must have something in it. -/
def readSimple : Reader Command := fun tokens =>
  let (s, rest) := simpleRest tokens.length ⟨[], [], []⟩ tokens
  if s.assignments.isEmpty && s.words.isEmpty && s.redirects.isEmpty then none
  else
    let line := tokens.findSome? fun t => match t with
      | .word line _ => some line
      | _ => none
    some (.simple (line.getD 1) s.assignments s.words s.redirects, rest)

/-- Reads a conditional behind its first word. -/
def readBranches (bound : Nat) : Reader Command := fun tokens =>
  match bound with
  | 0 => none
  | n + 1 => do
    let (cond, rest) ← readList n tokens
    let rest ← expectWord "then" rest
    let (yes, rest) ← readList n rest
    match headWord? rest with
    | some "elif" => do
      let (no, rest) ← readBranches n rest.tail
      some (.branch cond yes no, rest)
    | some "else" => do
      let (no, rest) ← readList n rest.tail
      let rest ← expectWord "fi" rest
      some (.branch cond yes no, rest)
    | some "fi" => some (.branch cond yes .nothing, rest.tail)
    | _ => none

/-- Reads the body of a loop with its marks. -/
def readBody (bound : Nat) : Reader Command := fun tokens =>
  match bound with
  | 0 => none
  | n + 1 => do
    let rest ← expectWord "do" (skipNewlines tokens)
    let (body, rest) ← readList n rest
    let rest ← expectWord "done" rest
    some (body, rest)

/-- Reads a loop behind its first word. -/
def readLoop (bound : Nat) (whileFails : Bool) : Reader Command := fun tokens =>
  match bound with
  | 0 => none
  | n + 1 => do
    let (cond, rest) ← readList n tokens
    let (body, rest) ← readBody n rest
    some (.loop whileFails cond body, rest)

/-- Reads a loop over words behind its first word. -/
def readFor (bound : Nat) : Reader Command := fun tokens =>
  match bound with
  | 0 => none
  | n + 1 => do
    let name ← headWord? tokens
    let rest := skipNewlines tokens.tail
    let (words, rest) : Option (List Word) × List Token := match expectWord "in" rest with
      | some rest => (some (wordsRest rest).1, (wordsRest rest).2)
      | none => (none, rest)
    let rest := (expectOperator ";" rest).getD rest
    let (body, rest) ← readBody n rest
    some (.forEach name.toList words body, rest)

end

/-- Reads the commands of a line, which must end there. A command may go on over several lines. -/
def readLine (bound : Nat) : Reader Command := fun tokens =>
  match bound with
  | 0 => none
  | n + 1 => do
    let (first, rest) ← readAndOr (12 * (tokens.length + 1)) tokens
    match rest with
    | [] => some (first, [])
    | .newline :: after => some (first, after)
    | .operator ";" :: [] => some (first, [])
    | .operator ";" :: .newline :: after => some (first, after)
    | .operator ";" :: after => do
      let (more, rest) ← readLine n after
      some (.sequence first more, rest)
    | _ => none

/-- The lines of a script as commands. Where a line is not well formed none follows, and that is
what `complete` denies. -/
structure Script where
  lines : List Command
  complete : Bool

/-- Reads the lines of a script. -/
def readLines (bound : Nat) (tokens : List Token) : Script :=
  match bound with
  | 0 => ⟨[], false⟩
  | n + 1 =>
    match skipNewlines tokens with
    | [] => ⟨[], true⟩
    | rest =>
      match readLine rest.length rest with
      | none => ⟨[], false⟩
      | some (command, after) =>
        let more := readLines n after
        { more with lines := command :: more.lines }

/-- The script that a text is. -/
def parseScript (text : List Char) : Script :=
  let tokens := tokenize text
  readLines (tokens.length + 1) tokens

end WitnessReplay.Shell
