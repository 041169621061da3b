import WitnessReplay.Text.Pattern
import WitnessReplay.Text.WordChar

/-!
# Sanitation

Before a program is read, its comments and the extensions of the language that the reader does not
know are overwritten in place. Every line end keeps its byte offset, so a position in a witness
means the same in the sanitized text.

The substitutions stand in a table and are applied in its order, over and over. A pass that changes
the text at all leaves fewer characters that are neither spaces nor line ends, and that is why
`sanitizeFrom` ends without being told how often to try.
-/

namespace WitnessReplay.Sanitation

open Text

/-! ### What is looked for -/

/-- Whether a character may stand between an extension word and its parenthesis. -/
def isLayout (c : Char) : Bool :=
  c == ' ' || c == '\r' || c == '\n'

/-- A closing parenthesis behind as much of the line as possible. -/
def restOfGroup : Pattern :=
  .seq (.exactly ['(']) (.onLine (.exactly [')']))

/-- An extension word and a group in parentheses, through the last closing one on its line. -/
def wordWithGroup (word : Pattern) : Pattern :=
  .seq word (.seq (.many isLayout) restOfGroup)

/-- A word that no word character follows. -/
def wholeWord (word : String) : Pattern :=
  .seq (.exactly word.toList) (.unlessNext isWordChar)

/-- A string literal behind its opening quote. Escapes do not go across line ends. -/
def restOfString : Pattern
  | [] => none
  | [c] => if c = '"' then some ([c], []) else none
  | a :: b :: rest =>
    if a = '"' then some ([a], b :: rest)
    else if a = '\n' then none
    else if a = '\\' then
      if b = '\n' then none
      else (restOfString rest).map fun (body, after) => (a :: b :: body, after)
    else (restOfString (b :: rest)).map fun (body, after) => (a :: body, after)

/-- A comment, or a string literal, in which nothing is a comment. -/
def commentOrString : Pattern :=
  .orElse (.seq (.exactly ['"']) restOfString) <|
    .orElse (.seq (.exactly ['/', '/']) (.many (· ≠ '\n')))
      (.seq (.exactly ['/', '*']) (.through ['*', '/']))

/-- A block in parentheses: the last brace on the line of the opening one that a parenthesis
follows. -/
def blockInParentheses : Pattern :=
  .seq (.exactly ['(']) <| .seq (.many isLayout) <| .seq (.exactly ['{']) <|
    .onLine <| .seq (.exactly ['}']) <| .seq (.many isLayout) (.exactly [')'])

/-! ### What it is replaced by -/

/-- Spaces for every byte except line ends. -/
def blank (cs : List Char) : List Char :=
  cs.flatMap fun c => if c = '\n' then ['\n'] else List.replicate c.utf8Size ' '

/-- Splits a text behind the parenthesis that balances its first one, or before one that closes
nothing. If neither comes the first part is the whole text. -/
def splitBalanced (depth : Nat) : List Char → List Char × List Char
  | [] => ([], [])
  | c :: rest =>
    if c = '(' then (c :: (splitBalanced (depth + 1) rest).1, (splitBalanced (depth + 1) rest).2)
    else if c = ')' then
      match depth with
      | 0 => ([], c :: rest)
      | 1 => ([c], rest)
      | d + 2 => (c :: (splitBalanced (d + 1) rest).1, (splitBalanced (d + 1) rest).2)
    else (c :: (splitBalanced depth rest).1, (splitBalanced depth rest).2)

/-- What is done with a match. -/
inductive Action
  /-- Comments are blanked and strings kept. -/
  | blankComment
  /-- The match is blanked through its balancing parenthesis. -/
  | blankGroup
  /-- The same, with a zero at the start. -/
  | zeroGroup
  /-- Another text of the same length takes its place. -/
  | replaceBy (text : String)
deriving Repr

/-- The text that takes the place of a match. -/
def Action.apply (action : Action) (found : List Char) : List Char :=
  match action with
  | blankComment => if found.head? = some '"' then found else blank found
  | blankGroup => blank (splitBalanced 0 found).1 ++ (splitBalanced 0 found).2
  | zeroGroup => '0' :: (blank (splitBalanced 0 found).1).drop 1 ++ (splitBalanced 0 found).2
  | replaceBy text => text.toList

/-! ### The substitutions -/

/-- A substitution: what it looks for, whether only behind a word boundary, and what it does. -/
structure Substitution where
  atWord : Bool
  pattern : Pattern
  action : Action

/-- The substitutions in their order. Every pattern bound to a word boundary begins with a word
character, so the boundary is where no word character stands before it. -/
def substitutions : List Substitution := [
  ⟨false, commentOrString, .blankComment⟩,
  ⟨true, wordWithGroup (.exactly "__attribute__".toList), .blankGroup⟩,
  ⟨true, wordWithGroup (.seq (.exactly "__asm__".toList)
    (.orElse (.seq (.many1 isLayout) (.exactly "__volatile__".toList)) (.exactly []))),
    .blankGroup⟩,
  ⟨true, wordWithGroup (.exactly "asm volatile".toList), .blankGroup⟩,
  ⟨true, wordWithGroup (.exactly "asm".toList), .blankGroup⟩,
  ⟨true, wordWithGroup (.exactly "__extension__".toList), .zeroGroup⟩,
  ⟨true, wholeWord "__extension__", .blankGroup⟩,
  ⟨true, .orElse (wholeWord "__inline__") (wholeWord "__inline"), .blankGroup⟩,
  ⟨true, .orElse (wholeWord "__restrict__") (wholeWord "__restrict"), .blankGroup⟩,
  ⟨true, wholeWord "__builtin_va_list", .replaceBy "int              "⟩,
  ⟨true, wholeWord "__signed__", .replaceBy "  signed  "⟩,
  ⟨false, blockInParentheses, .zeroGroup⟩]

/-- What a substitution finds at the front of a text, where `inWord` says that a word character
stands before it. -/
def Substitution.find? (s : Substitution) (inWord : Bool) (cs : List Char) : Option (List Char) :=
  if s.atWord && inWord then none else (s.pattern cs).map Prod.fst

/-- Applies a substitution to every match of a text, from left to right. The next `pending`
characters belong to a match already replaced. -/
def Substitution.applyFrom (s : Substitution) (pending : Nat) (inWord : Bool) :
    List Char → List Char
  | [] => []
  | c :: rest =>
    match pending with
    | n + 1 => s.applyFrom n (isWordChar c) rest
    | 0 =>
      match s.find? inWord (c :: rest) with
      | some found => s.action.apply found ++ s.applyFrom (found.length - 1) (isWordChar c) rest
      | none => c :: s.applyFrom 0 (isWordChar c) rest

/-- Applies a substitution to a whole text. -/
def Substitution.apply (s : Substitution) (cs : List Char) : List Char :=
  s.applyFrom 0 false cs

/-- Applies all substitutions once. -/
def pass (cs : List Char) : List Char :=
  substitutions.foldl (fun text s => s.apply text) cs

/-- How many characters are neither spaces nor line ends. -/
def weight (cs : List Char) : Nat :=
  cs.countP fun c => c ≠ ' ' && c ≠ '\n'

/-- Applies the substitutions until they change nothing. -/
def sanitizeFrom (cs : List Char) : List Char :=
  let next := pass cs
  -- a pass that removes nothing changes nothing
  if weight next < weight cs then sanitizeFrom next else next
termination_by weight cs

/-- A text without comments and extensions, in which all else stands where it stood. -/
def sanitize (source : String) : String :=
  String.ofList (sanitizeFrom source.toList)

end WitnessReplay.Sanitation
