import WitnessReplay.Json.Basic

/-!
# Printing JSON

A value is printed over several lines: each item and each field on a line of its own, two blanks
deeper than the brackets around it. Brackets with nothing inside stay together.
-/

namespace WitnessReplay.Json

/-- A hexadecimal digit in lower case. -/
def hexDigit (n : Nat) : Char :=
  if n < 10 then Char.ofNat ('0'.toNat + n) else Char.ofNat ('a'.toNat + (n - 10))

/-- How a character is written in a string. Quotes, backslashes and control characters are escaped,
nothing else is. -/
def escape (c : Char) : List Char :=
  if c = '"' then ['\\', '"']
  else if c = '\\' then ['\\', '\\']
  else if c = '\n' then ['\\', 'n']
  else if c = '\r' then ['\\', 'r']
  else if c = '\t' then ['\\', 't']
  else if c.toNat = 8 then ['\\', 'b']
  else if c.toNat = 12 then ['\\', 'f']
  else if c.toNat < 32 then ['\\', 'u', '0', '0', hexDigit (c.toNat / 16), hexDigit (c.toNat % 16)]
  else [c]

/-- A string between quotes. -/
def quote (s : String) : String :=
  "\"" ++ String.ofList (s.toList.flatMap escape) ++ "\""

/-- A number in decimal. -/
def renderNumber (mantissa : Int) (places : Nat) : String :=
  let digits := toString mantissa.natAbs
  let sign := if mantissa < 0 then "-" else ""
  if places = 0 then sign ++ digits
  else
    let padded := String.ofList (List.replicate (places + 1 - digits.length) '0') ++ digits
    let whole := padded.toList.take (padded.length - places)
    let fraction := padded.toList.drop (padded.length - places)
    sign ++ String.ofList whole ++ "." ++ String.ofList fraction

/-- A line end and the indentation of a depth. -/
def newline (depth : Nat) : String :=
  "\n" ++ String.ofList (List.replicate (2 * depth) ' ')

mutual

/-- A value whose brackets stand at a depth. -/
def render (depth : Nat) : Json → String
  | null => "null"
  | bool b => if b then "true" else "false"
  | number m places => renderNumber m places
  | string s => quote s
  | array [] => "[]"
  | array (item :: rest) =>
    "[" ++ newline (depth + 1) ++ item.render (depth + 1) ++ renderItems depth rest
  | object [] => "\x7b\x7d"
  | object ((name, value) :: rest) =>
    "\x7b" ++ newline (depth + 1) ++ quote name ++ ": " ++ value.render (depth + 1)
      ++ renderFields depth rest

/-- The further items of an array, and its end. -/
def renderItems (depth : Nat) : List Json → String
  | [] => newline depth ++ "]"
  | item :: rest =>
    "," ++ newline (depth + 1) ++ item.render (depth + 1) ++ renderItems depth rest

/-- The further fields of an object, and its end. -/
def renderFields (depth : Nat) : List (String × Json) → String
  | [] => newline depth ++ "\x7d"
  | (name, value) :: rest =>
    "," ++ newline (depth + 1) ++ quote name ++ ": " ++ value.render (depth + 1)
      ++ renderFields depth rest

end

end WitnessReplay.Json
