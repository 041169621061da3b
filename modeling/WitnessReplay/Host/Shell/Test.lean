import WitnessReplay.Host.Shell.Process
import WitnessReplay.Text.Number

/-!
# Tests

The conditions that `test` decides: on texts, on numbers, and on what paths lead to.
-/

namespace WitnessReplay.Shell

/-- Whether what a path leads to is as a letter says. -/
def isOfKind (kind : Char) : Option FileEntry → Bool
  | none => false
  | some entry =>
    match kind, entry with
    | 'e', _ => true
    | 'r', _ => true
    | 'w', _ => true
    | 'f', .file .. => true
    | 'd', .directory => true
    | 'f', .program .. => true
    | 'c', .device _ => true
    | 's', .file content _ => !content.isEmpty
    | 's', .directory => true
    | 's', .program .. => true
    | 'x', .program _ mode => FileSystem.isExecutableMode mode
    | 'x', .file _ mode => FileSystem.isExecutableMode mode
    | 'x', .directory => true
    | _, _ => false

/-- The letters that name kinds of files. -/
def fileKinds : List Char := ['e', 'r', 'w', 'f', 'd', 'c', 's', 'x', 'L', 'h', 'p', 'b', 'S']

/-- A number as it stands in a test, with blanks around it. -/
def testNumber? (cs : List Char) : Option Int :=
  let isBlank (c : Char) := c == ' ' || c == '\t' || c == '\n'
  let body := ((cs.dropWhile isBlank).reverse.dropWhile isBlank).reverse
  match body with
  | '-' :: digits => (Text.digits? digits).map fun n => -(n : Int)
  | '+' :: digits => (Text.digits? digits).map fun n => (n : Int)
  | digits => (Text.digits? digits).map fun n => (n : Int)

/-- Compares two numbers by the name of a comparison. -/
def comparison? (name : String) : Option (Int → Int → Bool) :=
  match name with
  | "-eq" => some fun a b => a == b
  | "-ne" => some fun a b => a != b
  | "-lt" => some fun a b => a < b
  | "-le" => some fun a b => a ≤ b
  | "-gt" => some fun a b => b < a
  | "-ge" => some fun a b => b ≤ a
  | _ => none

/-- A test of one operand. -/
def unaryTest? (p : Process) (operator operand : List Char) : Option Bool :=
  match operator with
  | ['-', 'n'] => some (!operand.isEmpty)
  | ['-', 'z'] => some operand.isEmpty
  | ['-', 't'] => some false
  | ['-', kind] =>
    if fileKinds.contains kind then some (isOfKind kind (p.entry? operand)) else none
  | _ => none

/-- A test of two operands. -/
def binaryTest? (a : List Char) (operator b : List Char) : Option Bool :=
  match String.ofList operator with
  | "=" => some (a == b)
  | "==" => some (a == b)
  | "!=" => some (a != b)
  | name => do
    let compares ← comparison? name
    some (compares (← testNumber? a) (← testNumber? b))

/-- Decides a test, which may be negated. One that is not well formed has no answer. -/
def decideTest? (p : Process) : List (List Char) → Option Bool
  | [] => some false
  | [a] => some (!a.isEmpty)
  | [operator, a] =>
    if operator = ['!'] then some a.isEmpty else unaryTest? p operator a
  | [a, operator, b] =>
    match binaryTest? a operator b with
    | some r => some r
    | none => if a = ['!'] then (decideTest? p [operator, b]).map not else none
  | a :: rest => if a = ['!'] then (decideTest? p rest).map not else none

/-- Decides a test as a command does. -/
def testStatus (words : List (List Char)) : Action Nat := do
  match decideTest? (← get) words with
  | some true => return 0
  | some false => return 1
  | none =>
    complainOf "test" [ofText "bad condition"]
    return 2

end WitnessReplay.Shell
