/-!
# Shell commands

The commands of shell scripts. Compilers and programs that are run in a `World` are such scripts,
and that is all they are for: the results are about every `Machine`, and say nothing of scripts. So
there is as much of the language and its tools as small scripts use.

A script is a sequence of bytes and knows nothing of encodings, so each byte counts as a character
here, the one of the same number.

A word is a list of pieces, from which its text is made when the word is used. The text of a command
substitution is kept as it stands and read only then.
-/

namespace WitnessReplay.Shell

/-- What is done with a parameter that may be unset or empty. -/
inductive Fallback
  /-- Nothing: the parameter counts as it is. -/
  | plain
  /-- The number of characters takes the place of the value. -/
  | length
  /-- Another text takes the place of a value that is unset, or with `empty` also of an empty
  one. -/
  | otherwise (empty : Bool) (text : List Char)
  /-- Another text takes the place of a value that is set, or with `empty` of one not empty. -/
  | whenSet (empty : Bool) (text : List Char)
deriving DecidableEq, Repr

/-- A piece of a word. What comes of quoted pieces is not split into fields. -/
inductive Piece
  | literal (c : Char)
  | quoted (text : List Char)
  | parameter (name : List Char) (fallback : Fallback) (isQuoted : Bool)
  | substitution (script : List Char) (isQuoted : Bool)
  | arithmetic (text : List Char) (isQuoted : Bool)
deriving DecidableEq, Repr

/-- A word: its pieces, in order. -/
abbrev Word := List Piece

/-- The text of a word that consists of literal characters alone. -/
def bareText? : Word → Option (List Char)
  | [] => some []
  | .literal c :: rest => (bareText? rest).map (c :: ·)
  | _ => none

/-- Where a redirection leads. -/
inductive Target
  | toFile (name : Word)
  | appendTo (name : Word)
  | fromFile (name : Word)
  /-- The same as another descriptor. -/
  | sameAs (descriptor : Word)
  /-- A text that stands in the script. -/
  | document (body : Word)
deriving DecidableEq, Repr

/-- A redirection of a descriptor. -/
structure Redirect where
  descriptor : Nat
  target : Target
deriving DecidableEq, Repr

/-- A command. -/
inductive Command
  /-- A list of words on a line of the script, with assignments before them. -/
  | simple (line : Nat) (assignments : List (List Char × Word)) (words : List Word)
    (redirects : List Redirect)
  | nothing
  | sequence (first second : Command)
  | andThen (first second : Command)
  | orElse (first second : Command)
  | negate (body : Command)
  | pipe (left right : Command)
  | branch (cond yes no : Command)
  /-- Repeats a body while a condition succeeds, or while it fails. -/
  | loop (whileFails : Bool) (cond body : Command)
  | forEach (name : List Char) (words : Option (List Word)) (body : Command)
  | subshell (body : Command)
  | redirected (body : Command) (redirects : List Redirect)
deriving Repr

instance : Inhabited Command := ⟨.nothing⟩

end WitnessReplay.Shell
