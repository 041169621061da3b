import WitnessReplay.Text.Utf8

/-!
# Positions in a text

A witness says where a step happens by lines, by byte offsets, or by both. `SourceText.resolve`
turns such hints into one range of the bytes of the program. Lines count from 1, offsets and columns
from 0. Whatever lies past the end is taken for the end.
-/

namespace WitnessReplay

/-- The bytes of a program, in which positions are sought. -/
structure SourceText where
  bytes : List UInt8
deriving Repr

/-- What a witness says about the position of a step. -/
structure LocationHints where
  startline : Option Nat
  endline : Option Nat
  startoffset : Option Nat
  endoffset : Option Nat
deriving DecidableEq, Repr, Inhabited

/-- A range of a text: the line and column of its first byte, its last line, one more than the
number of bytes from its start to its end, and the text up to the byte before its end. -/
structure Coords where
  startline : Nat
  column : Nat
  endline : Nat
  length : Nat
  content : String
deriving DecidableEq, Repr

/-- The offsets behind the line ends of a byte sequence that starts at an offset. -/
def lineStartsFrom (offset : Nat) : List UInt8 → List Nat
  | [] => []
  | b :: rest =>
    if b = 10 then (offset + 1) :: lineStartsFrom (offset + 1) rest
    else lineStartsFrom (offset + 1) rest

namespace SourceText

/-- The number of bytes. -/
def size (t : SourceText) : Nat :=
  t.bytes.length

/-- The offsets at which lines start, in order. There is always a first line, and one behind each
line end. -/
def lineStarts (t : SourceText) : List Nat :=
  0 :: lineStartsFrom 0 t.bytes

/-- The number of bytes before a line. -/
def offsetOfLine (t : SourceText) (line : Nat) : Nat :=
  if line ≤ 1 then 0 else t.lineStarts.getD (line - 1) t.size

/-- The line of an offset and its column there. -/
def lineOfOffset (t : SourceText) (offset : Nat) : Nat × Nat :=
  let line := t.lineStarts.countP (· ≤ offset)
  (line, offset - t.lineStarts.getD (line - 1) 0)

/-- The bytes from one offset up to another. -/
def slice (t : SourceText) (start stop : Nat) : List UInt8 :=
  (t.bytes.drop start).take (stop - start)

/-- The range that hints point to. The start is an offset or the start of a line; the end is an
offset or the end of a line. If the end is not given the start line is the last one, and nothing is
found where either end remains unknown. -/
def resolve (t : SourceText) (hints : LocationHints) : Option Coords := do
  let lastLine := hints.endline.or hints.startline
  let start ← hints.startoffset.or (hints.startline.map t.offsetOfLine)
  let stop ← hints.endoffset.or (lastLine.map fun l => t.offsetOfLine (l + 1))
  let start := min start t.size
  let stop := max (min stop t.size) start
  let contentStop := max (stop - 1) start
  let (startline, column) := t.lineOfOffset start
  some {
    startline
    column
    endline := lastLine.getD (t.lineOfOffset contentStop).1
    length := stop - start + 1
    content := String.ofList (Text.decodeLossy (t.slice start contentStop)) }

end SourceText

end WitnessReplay
