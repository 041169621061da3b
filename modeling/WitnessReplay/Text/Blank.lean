/-!
# Blank characters

The characters with the property `White_Space`, and what it means to trim a text and to split it
into words. No-break spaces and the ideographic space are blank; the zero-width space is not.
-/

namespace WitnessReplay.Text

/-- Whether a character has the property `White_Space`. -/
def isBlank (c : Char) : Bool :=
  let n := c.toNat
  (0x9 ≤ n && n ≤ 0xD) || n == 0x20 || n == 0x85 || n == 0xA0 || n == 0x1680
    || (0x2000 ≤ n && n ≤ 0x200A) || n == 0x2028 || n == 0x2029 || n == 0x202F
    || n == 0x205F || n == 0x3000

/-- A text without the blanks at its start. -/
def trimStart (cs : List Char) : List Char :=
  cs.dropWhile isBlank

/-- A text without the blanks at its end. -/
def trimEnd (cs : List Char) : List Char :=
  (trimStart cs.reverse).reverse

/-- A text without the blanks at either end. -/
def trim (cs : List Char) : List Char :=
  trimEnd (trimStart cs)

theorem length_trimStart_le (cs : List Char) : (trimStart cs).length ≤ cs.length :=
  (List.dropWhile_sublist _).length_le

theorem length_trim_le (cs : List Char) : (trim cs).length ≤ cs.length := by
  have h1 := length_trimStart_le cs
  have h2 := length_trimStart_le (trimStart cs).reverse
  simp only [trim, trimEnd, List.length_reverse] at *
  omega

/-- The stretches of non-blank characters, in order; `word` is the stretch being read, backwards. -/
def wordsFrom : List Char → List Char → List (List Char)
  | [], [] => []
  | word, [] => [word.reverse]
  | word, c :: rest =>
    if isBlank c then
      match word with
      | [] => wordsFrom [] rest
      | _ => word.reverse :: wordsFrom [] rest
    else wordsFrom (c :: word) rest

/-- The words of a text: its maximal stretches of non-blank characters. -/
def words (cs : List Char) : List (List Char) :=
  wordsFrom [] cs

/-- Cuts a text at every occurrence of a character; there is one more piece than cuts. -/
def splitAt (sep : Char) : List Char → List (List Char)
  | [] => [[]]
  | c :: rest =>
    if c = sep then [] :: splitAt sep rest
    else
      match splitAt sep rest with
      | [] => [[c]]
      | piece :: pieces => (c :: piece) :: pieces

end WitnessReplay.Text
