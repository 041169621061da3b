import WitnessReplay.Text.Utf8

/-!
# Tokens

A token is a lexeme of a C text together with the gap before it: the blanks, continued line ends
and comments that separate it from its predecessor. Gaps and lexemes put one after the other give
the text back, so a stretch of tokens can be written exactly as it was read (`Token.verbatim`)
without keeping the text itself.
-/

namespace WitnessReplay

/-- The classes of lexemes. A directive is a whole line that begins with a number sign. -/
inductive TokenKind
  | word
  | number
  | string
  | character
  | punctuation
  | directive
deriving DecidableEq, Repr

/-- A lexeme, the gap before it, and where it starts: its byte offset and its line, from 1. -/
structure Token where
  kind : TokenKind
  gap : String
  text : String
  start : Nat
  line : Nat
deriving DecidableEq, Repr

namespace Token

/-- The byte offset just behind a token. -/
def stop (t : Token) : Nat :=
  t.start + t.text.utf8ByteSize

/-- Whether a token is an opening bracket. -/
def opens (t : Token) : Bool :=
  t.text == "(" || t.text == "[" || t.text == "\x7b"

/-- Whether a token is a closing bracket. -/
def closes (t : Token) : Bool :=
  t.text == ")" || t.text == "]" || t.text == "\x7d"

/-- Tokens with their gaps. -/
def spaced : List Token → String
  | [] => ""
  | t :: rest => t.gap ++ t.text ++ spaced rest

/-- A stretch of tokens as it was read, from its first lexeme through its last. -/
def verbatim : List Token → String
  | [] => ""
  | t :: rest => t.text ++ spaced rest

/-- The text of the token that comes first, or nothing if there is none. No lexeme is empty, so
the empty text is no token's. -/
def headText : List Token → String
  | [] => ""
  | t :: _ => t.text

/-- The kind of the token that comes first. -/
def headKind? : List Token → Option TokenKind
  | [] => none
  | t :: _ => some t.kind

@[simp] theorem spaced_append (as bs : List Token) :
    spaced (as ++ bs) = spaced as ++ spaced bs := by
  induction as with
  | nil => simp [spaced]
  | cons t as ih => simp [spaced, ih, String.append_assoc]

end Token

end WitnessReplay
