import WitnessReplay.Text.Blank
import WitnessReplay.Text.Pattern

/-!
# Assumptions

An assumption of a witness is a list of conjuncts between semicolons. A conjunct `v == c`, with a
variable and a literal, says that the variable has the value. All other conjuncts are skipped: what
is not understood must not be approximated.
-/

namespace WitnessReplay

/-- What an assumption says about a variable. The value is the text of a literal. -/
structure Constraint where
  name : String
  value : String
deriving DecidableEq, Repr

namespace Assumption

open Text

/-! ### Parentheses -/

/-- Whether every parenthesis of a text has its partner, where `depth` are open before it. -/
def balancedFrom (depth : Nat) : List Char → Bool
  | [] => depth == 0
  | c :: rest =>
    if c = '(' then balancedFrom (depth + 1) rest
    else if c = ')' then
      match depth with
      | 0 => false
      | d + 1 => balancedFrom d rest
    else balancedFrom depth rest

/-- A text without the parentheses that surround it as a whole, however many there are. -/
def stripParens (cs : List Char) : List Char :=
  match cs with
  | '(' :: rest =>
    if rest.getLast? = some ')' ∧ balancedFrom 0 rest.dropLast then
      stripParens (trim rest.dropLast)
    else cs
  | _ => cs
termination_by cs.length
decreasing_by
  have := length_trim_le rest.dropLast
  simp only [List.length_dropLast, List.length_cons] at *
  omega

/-! ### Literals -/

/-- Whether a text is an identifier. -/
def isIdentifier : List Char → Bool
  | [] => false
  | c :: rest => (c.isAlpha || c == '_') && rest.all fun d => d.isAlphanum || d == '_'

/-- Whether a text begins and ends with a quote and has something between. -/
def isCharLiteral (cs : List Char) : Bool :=
  3 ≤ cs.length && cs.head? == some '\'' && cs.getLast? == some '\''

/-- Whether a text is a nonempty sequence of digits. -/
def isDigits (cs : List Char) : Bool :=
  !cs.isEmpty && cs.all Char.isDigit

/-- Whether a character is a hexadecimal digit in lower case. -/
def isLowerHexDigit (c : Char) : Bool :=
  c.isDigit || ('a' ≤ c && c ≤ 'f')

/-- A text without the suffixes of an integer at its end. -/
def dropIntegerSuffix (cs : List Char) : List Char :=
  (cs.reverse.dropWhile fun c => c == 'u' || c == 'l').reverse

/-- A text without the one suffix that a floating literal may have. -/
def dropFloatSuffix (cs : List Char) : List Char :=
  if cs.getLast? = some 'f' ∨ cs.getLast? = some 'l' then cs.dropLast else cs

/-- Whether a text is the part of a floating literal before its exponent. -/
def isMantissa (cs : List Char) : Bool :=
  match Pattern.cut ['.'] cs with
  | some (whole, fraction) =>
    (!whole.isEmpty || !fraction.isEmpty) && whole.all Char.isDigit && fraction.all Char.isDigit
  | none => isDigits cs

/-- Whether a text is an exponent behind its letter. -/
def isExponent : List Char → Bool
  | '+' :: rest => isDigits rest
  | '-' :: rest => isDigits rest
  | cs => isDigits cs

/-- Whether a text in lower case is a floating literal without suffix: it has an exponent, or a
point. -/
def isFloat (cs : List Char) : Bool :=
  match Pattern.cut ['e'] cs with
  | some (mantissa, exponent) => isMantissa mantissa && isExponent exponent
  | none => isMantissa cs && cs.contains '.'

/-- Whether a text in lower case is a literal of a number. -/
def isLowerNumber (cs : List Char) : Bool :=
  match cs with
  | '0' :: 'x' :: hex =>
    let digits := dropIntegerSuffix hex
    !digits.isEmpty && digits.all isLowerHexDigit
  | _ => isDigits (dropIntegerSuffix cs) || isFloat (dropFloatSuffix cs)

/-- Whether a text is a literal of a number. -/
def isNumber (cs : List Char) : Bool :=
  isLowerNumber (cs.map Char.toLower)

/-- The value that a text stands for: a truth value as a number, a character as it is, a number with
its sign. -/
def literal? (cs : List Char) : Option (List Char) :=
  let text := stripParens (trim cs)
  if text = "true".toList then some ['1']
  else if text = "false".toList then some ['0']
  else if isCharLiteral text then some text
  else
    match text with
    | [] => none
    | c :: rest =>
      -- the sign stays in front; parentheses around the number behind it go
      if c = '-' ∨ c = '+' then
        let body := stripParens (trim rest)
        if isNumber body then some (c :: body) else none
      else if isNumber text then some text
      else none

/-- What a conjunct says, if it is understood. -/
def conjunct? (cs : List Char) : Option Constraint :=
  match Pattern.cut ['=', '='] cs with
  | none => none
  | some (left, right) =>
    let name := stripParens (trim left)
    if isIdentifier name then
      (literal? right).map fun value => ⟨String.ofList name, String.ofList value⟩
    else none

/-- What an assumption says, conjunct by conjunct. -/
def parse (text : String) : List Constraint :=
  (splitAt ';' text.toList).filterMap fun cs => conjunct? (trim cs)

end Assumption

end WitnessReplay
