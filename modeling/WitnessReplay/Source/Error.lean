/-!
# Why a text is not a program

Reading a C text stops at the first thing that cannot be part of a program. Each cause is a
constructor; `ParseError.message` words it for a person.
-/

namespace WitnessReplay

/-- What has an opening and a closing mark in the text. -/
inductive Enclosure
  | comment
  | string
  | character
deriving DecidableEq, Repr

/-- How a message names an enclosure. -/
def Enclosure.describe : Enclosure → String
  | .comment => "comment"
  | .string => "string literal"
  | .character => "character literal"

/-- The construct in which a text ends too early. -/
inductive Construct
  | block
  | condition
  | doWhile
  | forHeader
  | brackets
  | statement
  | label
  | topLevel
deriving DecidableEq, Repr

/-- How a message names a construct. -/
def Construct.describe : Construct → String
  | .block => "block"
  | .condition => "condition"
  | .doWhile => "do-while"
  | .forHeader => "for header"
  | .brackets => "bracketed expression"
  | .statement => "statement"
  | .label => "label"
  | .topLevel => "top-level declaration"

/-- Why a text cannot be read as a program. -/
inductive ParseError
  /-- A comment or literal that begins on `line` never closes. -/
  | unterminated (what : Enclosure) (line : Nat)
  /-- The token `found` stands where the token `expected` belongs. -/
  | unexpected (expected found : String) (line : Nat)
  /-- The text ends inside a construct. -/
  | endOfInput (context : Construct)
deriving DecidableEq, Repr

namespace ParseError

/-- The wording of an error. -/
def message : ParseError → String
  | unterminated what line => "line " ++ toString line ++ ": unterminated " ++ what.describe
  | unexpected expected found line =>
    "line " ++ toString line ++ ": expected '" ++ expected ++ "', found '" ++ found ++ "'"
  | endOfInput context => "unexpected end of input while parsing " ++ context.describe

/-- The verdict that stands for every such error. -/
def reason : ParseError → String
  | _ => "Parsing failed"

end ParseError

/-- It can be checked that a computation succeeds with a value that has a property, if the property
can be checked. -/
instance decidableExistsOk {ε α : Type} {P : α → Prop} [DecidablePred P] :
    (r : Except ε α) → Decidable (∃ a, r = .ok a ∧ P a)
  | .ok a =>
    if h : P a then isTrue ⟨a, rfl, h⟩ else isFalse fun ⟨_, he, hp⟩ => h (Except.ok.inj he ▸ hp)
  | .error _ => isFalse fun ⟨_, he, _⟩ => nomatch he

/-- The value of a computation is changed if there is one. -/
theorem map_eq_ok {ε α β : Type} {r : Except ε α} {f : α → β} {b : β} :
    r.map f = .ok b ↔ ∃ a, r = .ok a ∧ b = f a := by
  cases r <;> simp [Except.map, eq_comm]

/-- A computation that succeeds hands on its value. -/
theorem ok_bind {ε α β : Type} (a : α) (f : α → Except ε β) : (Except.ok a >>= f) = f a :=
  rfl

end WitnessReplay
