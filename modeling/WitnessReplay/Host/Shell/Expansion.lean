import WitnessReplay.Host.Shell.Basic

/-!
# Fields

What becomes of a word once its parameters are known. Each character remembers where it comes from:
only blanks out of an unquoted expansion separate fields.
-/

namespace WitnessReplay.Shell

/-- A character of an expanded word, or something that is none but decides about fields. -/
inductive Mark
  /-- A character that stands in the word itself. -/
  | plain (c : Char)
  /-- A character out of an unquoted expansion. -/
  | loose (c : Char)
  /-- A quoted character. -/
  | quoted (c : Char)
  /-- The place of a quoted text, which makes a field even if there is nothing in it. -/
  | anchor
  /-- The end of a field. -/
  | cut
deriving DecidableEq, Repr

/-- Whether a character separates fields. -/
def separates (c : Char) : Bool :=
  c == ' ' || c == '\t' || c == '\n'

/-- The fields of an expanded word, where `field` is the one being read, backwards, if one has
begun. -/
def fieldsFrom (field : Option (List Char)) : List Mark → List (List Char)
  | [] => (field.map List.reverse).toList
  | .plain c :: rest => fieldsFrom (some (c :: field.getD [])) rest
  | .quoted c :: rest => fieldsFrom (some (c :: field.getD [])) rest
  | .anchor :: rest => fieldsFrom (some (field.getD [])) rest
  | .cut :: rest => (field.map List.reverse).toList ++ fieldsFrom none rest
  | .loose c :: rest =>
    if separates c then (field.map List.reverse).toList ++ fieldsFrom none rest
    else fieldsFrom (some (c :: field.getD [])) rest

/-- The fields of an expanded word. -/
def fields (marks : List Mark) : List (List Char) :=
  fieldsFrom none marks

/-- The text of an expanded word that is not split. -/
def joined : List Mark → List Char
  | [] => []
  | .plain c :: rest => c :: joined rest
  | .loose c :: rest => c :: joined rest
  | .quoted c :: rest => c :: joined rest
  | .anchor :: rest => joined rest
  | .cut :: rest => ' ' :: joined rest

/-- A text as it comes out of an expansion. -/
def marksOf (isQuoted : Bool) (text : List Char) : List Mark :=
  if isQuoted then .anchor :: text.map .quoted else text.map .loose

end WitnessReplay.Shell
