import WitnessReplay.Host.Shell.Format

/-!
# Arithmetic in scripts

Integers with the truth values, comparisons and sums of C. Names stand for the values of variables.
-/

namespace WitnessReplay.Shell.Arithmetic

open Text

/-- A token of an expression. -/
inductive Token
  | number (n : Int)
  | symbol (text : String)
deriving DecidableEq, Repr

/-- The operators that take two values, by how tightly they bind, the loosest first. -/
def levels : List (List String) :=
  [["||"], ["&&"], ["==", "!="], ["<=", ">=", "<", ">"], ["+", "-"], ["*", "/", "%"]]

/-- All symbols, longer ones first. -/
def symbols : List String :=
  levels.flatten ++ ["!", "(", ")"]

/-- One token of an expression, or none for a blank. -/
def step (value : List Char → Int) (cs : List Char) : Option (Step (Option Token)) :=
  match cs with
  | [] => some (.done [])
  | c :: rest =>
    let isNameChar (c : Char) := c.isAlphanum || c == '_'
    let word := cs.takeWhile isNameChar
    if c = ' ' ∨ c = '\t' ∨ c = '\n' then some (.more none rest)
    else if c.isDigit then
      (digits? word).map fun n => .more (some (.number n)) (cs.dropWhile isNameChar)
    else if isNameChar c then
      some (.more (some (.number (value word))) (cs.dropWhile isNameChar))
    else
      (symbols.find? fun s => s.toList.isPrefixOf cs).map fun s =>
        .more (some (.symbol s)) (cs.drop s.length)

/-- What an operator makes of two values. Nothing is divided by zero. -/
def combine? (operator : String) (a b : Int) : Option Int :=
  let truth (p : Bool) : Option Int := some (if p then 1 else 0)
  match operator with
  | "||" => truth (a != 0 || b != 0)
  | "&&" => truth (a != 0 && b != 0)
  | "==" => truth (a == b)
  | "!=" => truth (a != b)
  | "<=" => truth (a ≤ b)
  | ">=" => truth (b ≤ a)
  | "<" => truth (a < b)
  | ">" => truth (b < a)
  | "+" => some (Int.bmod (a + b) UInt64.size)
  | "-" => some (Int.bmod (a - b) UInt64.size)
  | "*" => some (Int.bmod (a * b) UInt64.size)
  | "/" => if b = 0 then none else some (Int.tdiv a b)
  | "%" => if b = 0 then none else some (Int.tmod a b)
  | _ => none

mutual

/-- Reads values between the operators of the first level and those behind it. -/
def readLevel (bound : Nat) (operators : List (List String)) (tokens : List Token) :
    Option (Int × List Token) :=
  match bound with
  | 0 => none
  | n + 1 =>
    match operators with
    | [] => readSigned n tokens
    | level :: tighter => do
      let (a, rest) ← readLevel n tighter tokens
      readMore n level tighter a rest

/-- Reads the further values of a level, where all before them comes to `a`. -/
def readMore (bound : Nat) (level : List String) (tighter : List (List String)) (a : Int)
    (tokens : List Token) : Option (Int × List Token) :=
  match bound with
  | 0 => none
  | n + 1 =>
    match tokens with
    | .symbol s :: rest =>
      if level.contains s then do
        let (b, rest) ← readLevel n tighter rest
        readMore n level tighter (← combine? s a b) rest
      else some (a, tokens)
    | _ => some (a, tokens)

/-- Reads a number with its signs, or an expression in parentheses. -/
def readSigned (bound : Nat) (tokens : List Token) : Option (Int × List Token) :=
  match bound with
  | 0 => none
  | n + 1 =>
    match tokens with
    | .number a :: rest => some (a, rest)
    | .symbol "-" :: rest => (readSigned n rest).map fun (a, rest) => (-a, rest)
    | .symbol "+" :: rest => readSigned n rest
    | .symbol "!" :: rest =>
      (readSigned n rest).map fun (a, rest) => (if a = 0 then 1 else 0, rest)
    | .symbol "(" :: rest => do
      let (a, rest) ← readLevel n levels rest
      match rest with
      | .symbol ")" :: rest => some (a, rest)
      | _ => none
    | _ => none

end

/-- The value of an expression, given those of the names in it. The empty expression has the value
zero. -/
def evaluate? (value : List Char → Int) (cs : List Char) : Option Int := do
  let (pieces, _) ← collect (step value) cs
  let tokens := pieces.filterMap id
  if tokens.isEmpty then some 0
  else
    let (a, rest) ← readLevel (16 * (tokens.length + 1)) levels tokens
    if rest.isEmpty then some a else none

example : evaluate? (fun _ => 4) "1 + n * (2 - 5)".toList = some (-11) := by cbv

end WitnessReplay.Shell.Arithmetic
