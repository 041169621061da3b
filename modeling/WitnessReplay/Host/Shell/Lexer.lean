import WitnessReplay.Host.Shell.Basic
import WitnessReplay.Text.Collect
import WitnessReplay.Text.Pattern

/-!
# Tokens of shell scripts

A script is cut into words and operators. A here-document is taken out of the text at the place
where it is announced, from the line below, so that what remains is an ordinary line.
-/

namespace WitnessReplay.Shell

open Text

/-- A token of a script. -/
inductive Token
  /-- A word, and the line where it begins. -/
  | word (line : Nat) (word : Word)
  | operator (text : String)
  | newline
  /-- The number before a redirection. -/
  | descriptor (n : Nat)
  /-- A here-document, behind the operator that announced it. -/
  | document (body : Word)
  /-- Where a script goes on with something that is no token, such as a quote without its end. -/
  | broken
deriving DecidableEq, Repr

/-- Whether a character ends an unquoted word. -/
def isMeta (c : Char) : Bool :=
  c == ' ' || c == '\t' || c == '\n' || c == ';' || c == '&' || c == '|' || c == '<' || c == '>'
    || c == '(' || c == ')'

/-- Whether a character can stand in a name. -/
def isNameChar (c : Char) : Bool :=
  c.isAlphanum || c == '_'

/-- Whether a text is a name. -/
def isName : List Char → Bool
  | [] => false
  | c :: rest => (c.isAlpha || c == '_') && rest.all isNameChar

/-- The parameters whose names are single marks. -/
def isSpecialParameter (c : Char) : Bool :=
  c == '?' || c == '#' || c == '@' || c == '*' || c == '$' || c == '!' || c == '-'

/-- What stands in the way of the end of a bracketed text: quotes of either kind. -/
inductive Quoting
  | none
  | single
  | double
deriving DecidableEq

/-- Splits a text at the bracket that closes its surroundings, where `depth` further ones are open;
brackets in quotes do not count. -/
def splitBracket (opening closing : Char) (depth : Nat) (quoting : Quoting) :
    List Char → Option (List Char × List Char)
  | [] => Option.none
  | [c] => if quoting = .none ∧ c = closing ∧ depth = 0 then some ([], []) else Option.none
  | c :: d :: rest =>
    let next (n : Nat) (q : Quoting) :=
      (splitBracket opening closing n q (d :: rest)).map fun (a, b) => (c :: a, b)
    match quoting with
    | .single => next depth (if c = '\'' then .none else .single)
    | .double =>
      if c = '\\' then
        (splitBracket opening closing depth .double rest).map fun (a, b) => (c :: d :: a, b)
      else next depth (if c = '"' then .none else .double)
    | .none =>
      if c = '\\' then
        (splitBracket opening closing depth .none rest).map fun (a, b) => (c :: d :: a, b)
      else if c = '\'' then next depth .single
      else if c = '"' then next depth .double
      else if c = opening then next (depth + 1) .none
      else if c = closing then
        match depth with
        | 0 => some ([], d :: rest)
        | n + 1 => next n .none
      else next depth .none

/-- The fallback that stands behind the name of a parameter in braces. -/
def fallback? : List Char → Option Fallback
  | [] => some .plain
  | ':' :: '-' :: text => some (.otherwise true text)
  | '-' :: text => some (.otherwise false text)
  | ':' :: '+' :: text => some (.whenSet true text)
  | '+' :: text => some (.whenSet false text)
  | _ => none

/-- The parameter that is written between braces. -/
def bracedParameter? (isQuoted : Bool) (body : List Char) : Option Piece :=
  match body with
  | '#' :: name =>
    if isName name || (!name.isEmpty && name.all Char.isDigit) then
      some (.parameter name .length isQuoted)
    else if name.isEmpty then some (.parameter ['#'] .plain isQuoted)
    else none
  | c :: rest =>
    if isSpecialParameter c then
      (fallback? rest).map fun f => .parameter [c] f isQuoted
    else
      let name := body.takeWhile isNameChar
      if name.isEmpty then none
      else (fallback? (body.dropWhile isNameChar)).map fun f => .parameter name f isQuoted
  | [] => none

/-- The expansion behind a dollar sign. A sign that begins none stands for itself. -/
def dollar (isQuoted : Bool) (cs : List Char) : Option (Piece × List Char) :=
  match cs with
  | '(' :: '(' :: rest =>
    match splitBracket '(' ')' 0 .none rest with
    | some (body, ')' :: after) => some (.arithmetic body isQuoted, after)
    | _ => (splitBracket '(' ')' 0 .none ('(' :: rest)).map fun (body, after) =>
      (.substitution body isQuoted, after)
  | '(' :: rest =>
    (splitBracket '(' ')' 0 .none rest).map fun (body, after) =>
      (.substitution body isQuoted, after)
  | '{' :: rest => do
    let (body, after) ← splitBracket '{' '}' 0 .none rest
    some (← bracedParameter? isQuoted body, after)
  | c :: rest =>
    if isSpecialParameter c || c.isDigit then some (.parameter [c] .plain isQuoted, rest)
    else if isNameChar c then
      some (.parameter (cs.takeWhile isNameChar) .plain isQuoted, cs.dropWhile isNameChar)
    else some (.quoted ['$'], cs)
  | [] => some (.quoted ['$'], [])

/-- One piece of a text in double quotes, up to a given end: a quote, or the end of the text. -/
def doubleStep (closed : Bool) (cs : List Char) : Option (Step (List Piece)) :=
  match cs with
  | [] => if closed then none else some (.done [])
  | '\\' :: '\n' :: rest => some (.more [] rest)
  | '\\' :: c :: rest =>
    if c = '$' ∨ c = '\\' ∨ (closed ∧ c = '"') then some (.more [.quoted [c]] rest)
    else some (.more [.quoted ['\\', c]] rest)
  | '$' :: rest => (dollar true rest).map fun (p, after) => .more [p] after
  | c :: rest =>
    if c = '"' ∧ closed then some (.done rest) else some (.more [.quoted [c]] rest)

/-- The pieces of a text that is expanded like one in double quotes. -/
def documentPieces (cs : List Char) : Option Word :=
  (collect (doubleStep false) cs).map fun (pieces, _) => pieces.flatten

/-- One stretch of a word. -/
def wordStep (cs : List Char) : Option (Step (List Piece)) :=
  match cs with
  | [] => some (.done [])
  | '\\' :: '\n' :: rest => some (.more [] rest)
  | '\\' :: c :: rest => some (.more [.quoted [c]] rest)
  | '\'' :: rest => (Pattern.cut ['\''] rest).map fun (body, after) => .more [.quoted body] after
  | '"' :: rest =>
    (collect (doubleStep true) rest).map fun (pieces, after) =>
      .more (.quoted [] :: pieces.flatten) after
  | '$' :: rest => (dollar false rest).map fun (p, after) => .more [p] after
  | c :: rest =>
    if isMeta c then some (.done (c :: rest)) else some (.more [.literal c] rest)

/-- Takes a word off a script. -/
def takeWord (cs : List Char) : Option (Word × List Char) :=
  (collect wordStep cs).map fun (pieces, rest) => (pieces.flatten, rest)

/-- The characters of a word with its quotes taken off, for the end of a here-document. -/
def plainText : Word → List Char
  | [] => []
  | .literal c :: rest => c :: plainText rest
  | .quoted text :: rest => text ++ plainText rest
  | .parameter name _ _ :: rest => '$' :: name ++ plainText rest
  | _ :: rest => plainText rest

/-- Splits lines at the one that ends a here-document: the lines before it and the text behind. -/
def splitDocument (strip : Bool) (close : List Char) : List (List Char) →
    List (List Char) × List (List Char)
  | [] => ([], [])
  | l :: rest =>
    let text := if strip then l.dropWhile (· == '\t') else l
    if text = close then ([], rest)
    else (text :: (splitDocument strip close rest).1, (splitDocument strip close rest).2)

/-- The lines of a text between its line ends. -/
def linesOf : List Char → List (List Char)
  | [] => [[]]
  | c :: rest =>
    if c = '\n' then [] :: linesOf rest
    else
      match linesOf rest with
      | [] => [[c]]
      | l :: ls => (c :: l) :: ls

/-- Lines put together again. -/
def joinLines : List (List Char) → List Char
  | [] => []
  | [l] => l
  | l :: rest => l ++ '\n' :: joinLines rest

/-- Takes a here-document out of a script, which goes on behind the operator: the body of the
document, and the script without it. -/
def takeDocument (strip : Bool) (cs : List Char) : Option (Word × List Char) := do
  let (mark, rest) ← takeWord (cs.dropWhile fun c => c == ' ' || c == '\t')
  let line := rest.takeWhile (· ≠ '\n')
  let below := (rest.dropWhile (· ≠ '\n')).drop 1
  let (body, after) := splitDocument strip (plainText mark) (linesOf below)
  let text := body.flatMap fun l => l ++ ['\n']
  let word ← if (bareText? mark).isSome then documentPieces text else some [.quoted text]
  some (word, line ++ '\n' :: joinLines after)

/-- The operators, longer ones first. -/
def operators : List String :=
  ["&&", "||", ">>", ">&", "<&", ">|", ";", "&", "|", "(", ")", "<", ">"]

/-- One token of a script that goes on at a line, or several where a here-document is announced. -/
def tokenStep (line : Nat) (cs : List Char) : Option (Step (List Token)) :=
  match cs with
  | [] => some (.done [])
  | '\\' :: '\n' :: rest => some (.more [] rest)
  | '\n' :: rest => some (.more [.newline] rest)
  | '<' :: '<' :: '-' :: rest =>
    (takeDocument true rest).map fun (body, after) => .more [.operator "<<", .document body] after
  | '<' :: '<' :: rest =>
    (takeDocument false rest).map fun (body, after) => .more [.operator "<<", .document body] after
  | c :: rest =>
    if c = ' ' ∨ c = '\t' then some (.more [] rest)
    else if c = '#' then some (.more [] (rest.dropWhile (· ≠ '\n')))
    else
      match operators.find? fun op => op.toList.isPrefixOf cs with
      | some op => some (.more [.operator op] (cs.drop op.length))
      | none =>
        let digits := cs.takeWhile Char.isDigit
        let behind := cs.dropWhile Char.isDigit
        if !digits.isEmpty && (behind.head? == some '<' || behind.head? == some '>') then
          some (.more [.descriptor (digits.foldl (fun n d => 10 * n + (d.toNat - 48)) 0)] behind)
        else (takeWord cs).map fun (word, after) => .more [.word line word] after

/-- The tokens of a script that goes on at a line, up to something that is none. -/
def tokenizeFrom (line : Nat) (cs : List Char) : List Token :=
  match tokenStep line cs with
  | none => [.broken]
  | some (.done _) => []
  | some (.more tokens rest) =>
    if rest.length < cs.length then
      tokens ++ tokenizeFrom (line + (cs.count '\n' - rest.count '\n')) rest
    else [.broken]
termination_by cs.length

/-- The tokens of a script. -/
def tokenize (script : List Char) : List Token :=
  tokenizeFrom 1 script

end WitnessReplay.Shell
