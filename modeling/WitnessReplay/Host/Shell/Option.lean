import WitnessReplay.Host.Shell.Process

/-!
# Options of tools

Most tools read their arguments alike. Options may stand anywhere before a double hyphen. Each is a
letter behind a hyphen, several letters may stand behind one hyphen, and the value of a letter that
takes one stands right behind it or in the next argument. A tool names its letters (`OptionLetters`)
and gets what was given sorted (`GivenOptions`); values are passed over, and other letters are a
fault.
-/

namespace WitnessReplay.Shell

/-- Arguments apart from the options in front of them, and the letters of those options. This is
how the shell itself reads its arguments. -/
def splitOptions : List (List Char) → List Char × List (List Char)
  | ['-', '-'] :: rest => ([], rest)
  | ('-' :: c :: cs) :: rest => (c :: cs ++ (splitOptions rest).1, (splitOptions rest).2)
  | rest => ([], rest)

/-- The letters that a tool knows: those that stand alone, and those that take a value. -/
structure OptionLetters where
  plain : String
  valued : String

/-- The arguments of a tool, sorted. -/
structure GivenOptions where
  letters : List Char
  operands : List (List Char)

/-- What is wrong with the options of a tool. -/
inductive OptionFault
  | unknownLetter (c : Char)
  | unknownWord (word : List Char)
  | missingValue (c : Char)

namespace OptionFault

/-- The wording of a fault. -/
def text : OptionFault → List Char
  | unknownLetter c => ofText "invalid option -- '" ++ [c, '\'']
  | unknownWord word => ofText "unrecognized option '" ++ word ++ ['\'']
  | missingValue c => ofText "option requires an argument -- '" ++ [c, '\'']

end OptionFault

namespace GivenOptions

/-- No arguments. -/
def empty : GivenOptions := ⟨[], []⟩

/-- The arguments with an operand in front. -/
def withOperand (operand : List Char) (g : GivenOptions) : GivenOptions :=
  { g with operands := operand :: g.operands }

/-- The arguments with letters in front. -/
def withLetters (letters : List Char) (g : GivenOptions) : GivenOptions :=
  { g with letters := letters ++ g.letters }

/-- Whether a letter was given that stands alone. -/
def has (g : GivenOptions) (c : Char) : Bool :=
  g.letters.contains c

end GivenOptions

/-- Letters behind a hyphen: those that stand alone, and at the end perhaps one that takes a value,
with what stands behind it. -/
structure LetterCluster where
  plain : List Char
  valued : Option (Char × List Char)

namespace OptionLetters

/-- Reads letters behind a hyphen. -/
def readCluster (l : OptionLetters) : List Char → Except OptionFault LetterCluster
  | [] => .ok ⟨[], none⟩
  | c :: rest =>
    if l.plain.toList.contains c then
      (l.readCluster rest).map fun cluster => { cluster with plain := c :: cluster.plain }
    else if l.valued.toList.contains c then .ok ⟨[], some (c, rest)⟩
    else .error (.unknownLetter c)

/-- Sorts arguments. -/
def read (l : OptionLetters) : List (List Char) → Except OptionFault GivenOptions
  | [] => .ok .empty
  | ['-', '-'] :: rest => .ok ⟨[], rest⟩
  | ('-' :: '-' :: word) :: _ => .error (.unknownWord ('-' :: '-' :: word))
  | ('-' :: c :: cs) :: rest => do
    let cluster ← l.readCluster (c :: cs)
    match cluster.valued with
    | none => return (← l.read rest).withLetters cluster.plain
    | some (d, []) =>
      match rest with
      | [] => .error (.missingValue d)
      | _ :: more => return (← l.read more).withLetters cluster.plain
    | some _ => return (← l.read rest).withLetters cluster.plain
  | operand :: rest => return (← l.read rest).withOperand operand
termination_by arguments => arguments.length

end OptionLetters

/-- Runs a tool on its arguments as they were sorted. With a fault in them it fails with a status of
its own. -/
def withOptions (command : String) (status : Nat) (l : OptionLetters)
    (arguments : List (List Char)) (body : GivenOptions → Action Nat) : Action Nat :=
  match l.read arguments with
  | .ok g => body g
  | .error fault => do
    complainOf command [fault.text]
    complain (ofText ("Try '" ++ command ++ " --help' for more information."))
    return status

end WitnessReplay.Shell
