/-!
# UTF-8

Texts are lists of characters; files and streams are lists of bytes. This module measures a text
in bytes, writes it as bytes, and reads bytes back, either strictly (`decode?`) or with the
replacement character in place of what is not UTF-8 (`decodeLossy`).

The reader is a machine that takes one byte at a time. Between characters it holds nothing; inside
one it holds the bits seen so far, how many continuation bytes it still expects and in which range
the next one must lie. The ranges of the second byte exclude overlong forms and surrogates, so a
sequence is given up at the first byte that no character can continue with, and the bytes before
that one are reported together: each maximal broken stretch counts once.
-/

namespace WitnessReplay.Text

/-- How many bytes a text takes in UTF-8. -/
def byteSize (cs : List Char) : Nat :=
  cs.foldr (fun c n => c.utf8Size + n) 0

@[simp] theorem byteSize_nil : byteSize [] = 0 := rfl

@[simp] theorem byteSize_cons (c : Char) (cs : List Char) :
    byteSize (c :: cs) = c.utf8Size + byteSize cs := rfl

@[simp] theorem byteSize_append (as bs : List Char) :
    byteSize (as ++ bs) = byteSize as + byteSize bs := by
  induction as with
  | nil => simp
  | cons c as ih => simp [ih, Nat.add_assoc]

/-- The bytes of a text. -/
def encode (cs : List Char) : List UInt8 :=
  cs.flatMap String.utf8EncodeChar

/-- The part of a character that has been read: its bits so far, the continuation bytes still
owed, and the range in which the next of them must lie. -/
structure Partial where
  bits : Nat
  owed : Nat
  low : UInt8
  high : UInt8
deriving DecidableEq, Repr

/-- What a byte opens when it stands where a character may begin: nothing for ASCII, for stray
continuation bytes and for bytes that occur in no character. -/
def lead? (b : UInt8) : Option Partial :=
  if 0xC2 ≤ b ∧ b ≤ 0xDF then some ⟨b.toNat % 32, 1, 0x80, 0xBF⟩
  else if b = 0xE0 then some ⟨b.toNat % 16, 2, 0xA0, 0xBF⟩
  else if b = 0xED then some ⟨b.toNat % 16, 2, 0x80, 0x9F⟩
  else if 0xE1 ≤ b ∧ b ≤ 0xEF then some ⟨b.toNat % 16, 2, 0x80, 0xBF⟩
  else if b = 0xF0 then some ⟨b.toNat % 8, 3, 0x90, 0xBF⟩
  else if 0xF1 ≤ b ∧ b ≤ 0xF3 then some ⟨b.toNat % 8, 3, 0x80, 0xBF⟩
  else if b = 0xF4 then some ⟨b.toNat % 8, 3, 0x80, 0x8F⟩
  else none

/-- A byte read between characters: what it completes, with `none` for a broken stretch, and what
it leaves open. -/
def readFirst (b : UInt8) : List (Option Char) × Option Partial :=
  if b < 0x80 then ([some (Char.ofNat b.toNat)], none)
  else
    match lead? b with
    | some p => ([], some p)
    | none => ([none], none)

/-- A byte read in any state. One that cannot continue the open character breaks it and is then
read afresh. -/
def readByte : Option Partial → UInt8 → List (Option Char) × Option Partial
  | none, b => readFirst b
  | some p, b =>
    if p.low ≤ b ∧ b ≤ p.high then
      let bits := p.bits * 64 + b.toNat % 64
      if p.owed ≤ 1 then ([some (Char.ofNat bits)], none)
      else ([], some ⟨bits, p.owed - 1, 0x80, 0xBF⟩)
    else (none :: (readFirst b).1, (readFirst b).2)

/-- The characters of a byte sequence, read from a given state; `none` stands for one maximal
broken stretch. A character still open at the end is broken too. -/
def decodeFrom : Option Partial → List UInt8 → List (Option Char)
  | none, [] => []
  | some _, [] => [none]
  | state, b :: rest => (readByte state b).1 ++ decodeFrom (readByte state b).2 rest

/-- The text of a byte sequence, with one replacement character for each broken stretch. -/
def decodeLossy (bytes : List UInt8) : List Char :=
  (decodeFrom none bytes).map (·.getD '\uFFFD')

/-- The text of a byte sequence that is UTF-8 throughout. -/
def decode? (bytes : List UInt8) : Option (List Char) :=
  (decodeFrom none bytes).mapM id

example : decodeLossy [0x70, 0xFE, 0x71] = ['p', '\uFFFD', 'q'] := by decide
example : decodeLossy [0xE2, 0x82, 0x41] = ['\uFFFD', 'A'] := by decide
example : decodeLossy [0xED, 0xA0, 0x80] = ['\uFFFD', '\uFFFD', '\uFFFD'] := by decide
example : decode? [0xE2, 0x82, 0xAC] = some ['€'] := by decide

end WitnessReplay.Text
