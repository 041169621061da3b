import WitnessReplay.Text.Collect
import WitnessReplay.Text.Number

/-!
# Escapes and formats

How `echo` and `printf` make text of their arguments. A format is a list of pieces; it is used again
and again until no argument is left, and where arguments are missing they count as empty.
-/

namespace WitnessReplay.Shell

open Text

/-! ### Escapes -/

/-- Whether a character is an octal digit. -/
def isOctalDigit (c : Char) : Bool :=
  '0' ≤ c && c ≤ '7'

/-- The byte that a sequence of octal digits stands for. -/
def octalByte (digits : List Char) : Char :=
  Char.ofNat (digits.foldl (fun n d => 8 * n + (d.toNat - '0'.toNat)) 0 % 256)

/-- The characters that have an escape of their own, and what the escapes stand for. -/
def simpleEscapes : List (Char × Nat) :=
  [('\\', 92), ('a', 7), ('b', 8), ('f', 12), ('n', 10), ('r', 13), ('t', 9), ('v', 11)]

/-- What the characters behind a backslash stand for, and the text behind them. In an argument, a
zero may stand before the octal digits. -/
def escapeAt (inArgument : Bool) (cs : List Char) : List Char × List Char :=
  let front := if inArgument && cs.head? == some '0' then 1 else 0
  let digits := ((cs.drop front).take 3).takeWhile isOctalDigit
  if front + digits.length ≠ 0 then ([octalByte digits], cs.drop (front + digits.length))
  else
    match cs with
    | [] => (['\\'], [])
    | c :: rest =>
      match simpleEscapes.lookup c with
      | some code => ([Char.ofNat code], rest)
      | none => (['\\', c], rest)

/-- One piece of a text with escapes. One of the escapes ends all output; the text behind it is then
not empty. -/
def unescapeStep (cs : List Char) : Option (Step (List Char)) :=
  match cs with
  | [] => some (.done [])
  | '\\' :: 'c' :: _ => some (.done cs)
  | '\\' :: rest => some (.more (escapeAt true rest).1 (escapeAt true rest).2)
  | c :: rest => some (.more [c] rest)

/-- A text with its escapes replaced, and whether one of them ends all output. -/
def unescape (cs : List Char) : List Char × Bool :=
  match collect unescapeStep cs with
  | some (pieces, rest) => (pieces.flatten, !rest.isEmpty)
  | none => (cs, false)

/-! ### Formats -/

/-- A piece of a format. -/
inductive FormatPiece
  | text (cs : List Char)
  /-- Ends all output. -/
  | stop
  | convert (kind : Char)
deriving DecidableEq, Repr

/-- One piece of a format. -/
def formatStep (cs : List Char) : Option (Step FormatPiece) :=
  match cs with
  | [] => some (.done [])
  | '%' :: '%' :: rest => some (.more (.text ['%']) rest)
  | '%' :: kind :: rest => some (.more (.convert kind) rest)
  | ['%'] => none
  | '\\' :: 'c' :: rest => some (.more .stop rest)
  | '\\' :: rest => some (.more (.text (escapeAt false rest).1) (escapeAt false rest).2)
  | c :: rest => some (.more (.text [c]) rest)

/-- The pieces of a format, if it is well formed. -/
def formatPieces? (cs : List Char) : Option (List FormatPiece) :=
  (collect formatStep cs).map (·.1)

/-! ### Conversions -/

/-- The number that an argument stands for. The empty argument stands for zero. -/
def numberArgument? : List Char → Option Int
  | [] => some 0
  | '-' :: ds => (digits? ds).map fun n => -(n : Int)
  | '+' :: ds => (digits? ds).map fun n => (n : Int)
  | ds => (digits? ds).map fun n => (n : Int)

/-- What is printed so far, and what is left to print from. -/
structure Printing where
  output : List Char
  arguments : List (List Char)
  /-- Whether an argument has been used in this round. -/
  used : Bool
  stopped : Bool
  /-- The arguments that should have been numbers and are none. -/
  faults : List (List Char)

namespace Printing

/-- The next argument, which is empty if there is none. -/
def next (p : Printing) : List Char × Printing :=
  (p.arguments.headD [], { p with arguments := p.arguments.tail, used := true })

/-- Adds to the output. -/
def put (p : Printing) (cs : List Char) : Printing :=
  { p with output := p.output ++ cs }

/-- The next argument as a number. -/
def nextNumber (p : Printing) : Int × Printing :=
  let (argument, p) := p.next
  match numberArgument? argument with
  | some n => (n, p)
  | none => (0, { p with faults := p.faults ++ [argument] })

/-- Prints an argument as a conversion says: as it stands, with its escapes replaced, the first
character of it, or as a number. -/
def convert (p : Printing) (kind : Char) : Printing :=
  if kind = 's' then
    let (argument, p) := p.next
    p.put argument
  else if kind = 'b' then
    let (argument, p) := p.next
    let (text, stops) := unescape argument
    { p.put text with stopped := stops }
  else if kind = 'c' then
    let (argument, p) := p.next
    p.put (argument.take 1)
  else
    let (n, p) := p.nextNumber
    p.put (toString n).toList

/-- Prints the pieces of a format once. -/
def round (p : Printing) : List FormatPiece → Printing
  | [] => p
  | piece :: rest =>
    if p.stopped then p
    else
      match piece with
      | .text cs => (p.put cs).round rest
      | .stop => { p with stopped := true }
      | .convert kind => (p.convert kind).round rest

/-- Prints a format once, and again while arguments are left, for `bound` rounds at most. -/
def rounds (pieces : List FormatPiece) : Nat → Printing → Printing
  | 0, p => p
  | bound + 1, p =>
    let p := { p with used := false }.round pieces
    if p.arguments.isEmpty || p.stopped || !p.used then p else rounds pieces bound p

end Printing

/-- Whether a conversion is one that is known. -/
def FormatPiece.isKnown : FormatPiece → Bool
  | convert kind => ['s', 'b', 'c', 'd', 'i'].contains kind
  | _ => true

/-- What a format and its arguments print, with the arguments that should have been numbers; nothing
if the format is not well formed. -/
def format? (template : List Char) (arguments : List (List Char)) :
    Option (List Char × List (List Char)) := do
  let pieces ← formatPieces? template
  if pieces.all FormatPiece.isKnown then
    let p := Printing.rounds pieces (arguments.length + 1) ⟨[], arguments, false, false, []⟩
    some (p.output, p.faults)
  else none

/-- What `echo` prints: its arguments with a blank between them, escapes replaced, and a line end
unless the first argument holds it back. -/
def echoText (arguments : List (List Char)) : List Char :=
  let quiet := arguments.head? == some ['-', 'n']
  let words := if quiet then arguments.tail else arguments
  let (text, stops) := unescape (List.intercalate [' '] words)
  if quiet || stops then text else text ++ ['\n']

end WitnessReplay.Shell
