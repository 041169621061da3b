import WitnessReplay.Proofs.Source.LineTable

/-!
# The range that hints denote

Hints with both ends resolve to a range of the bytes of a text. Where it starts and where it ends is
what the hints say, cut off at the end of the text, and it does not end before it starts
(`LocationHints.start?`, `LocationHints.stop?`). `Coords.Denotes` says what coordinates have to do
with such a range, and `SourceText.denotes_of_resolve` that resolved ones denote the range of their
hints.

All is done within bounds. Take words of some size for numbers, and let there be no answer where a
difference is below zero, a sum above the largest word, or something is read outside of the text or
its table of lines: the same coordinates are found (`SourceText.resolveWords?_eq`).
-/

namespace WitnessReplay

/-! ### Both ends -/

namespace LocationHints

/-- The last line that hints name. -/
def lastLine (hints : LocationHints) : Option Nat :=
  hints.endline.or hints.startline

/-- Where the range of some hints starts in a text. -/
def start? (hints : LocationHints) (t : SourceText) : Option Nat :=
  (hints.startoffset.or (hints.startline.map t.offsetOfLine)).map (min · t.size)

/-- Where the range of some hints ends in a text if it starts at an offset. -/
def stop? (hints : LocationHints) (t : SourceText) (start : Nat) : Option Nat :=
  (hints.endoffset.or (hints.lastLine.map fun l => t.offsetOfLine (l + 1))).map
    fun stop => max (min stop t.size) start

end LocationHints

/-- Where the text of a range ends: the last byte of the range, most often a line end, is not in
it. -/
def contentStop (start stop : Nat) : Nat :=
  max (stop - 1) start

/-- Coordinates denote the range of a text from one offset up to another: they name its place and
its extent, and give its text. -/
structure Coords.Denotes (c : Coords) (t : SourceText) (hints : LocationHints) (start stop : Nat) :
    Prop where
  start_le : start ≤ stop
  stop_le : stop ≤ t.size
  place : t.offsetOfLine c.startline + c.column = start
  extent : c.length = stop - start + 1
  content : c.content = String.ofList (Text.decodeLossy (t.slice start (contentStop start stop)))
  declared : ∀ l ∈ hints.lastLine, c.endline = l
  derived : hints.lastLine = none →
    c.endline = (t.lineOfOffset (contentStop start stop)).1 ∧ c.startline ≤ c.endline

namespace SourceText

/-- The coordinates of the range from one offset up to another. -/
def coordsBetween (t : SourceText) (hints : LocationHints) (start stop : Nat) : Coords where
  startline := (t.lineOfOffset start).1
  column := (t.lineOfOffset start).2
  endline := hints.lastLine.getD (t.lineOfOffset (contentStop start stop)).1
  length := stop - start + 1
  content := String.ofList (Text.decodeLossy (t.slice start (contentStop start stop)))

variable {t : SourceText} {hints : LocationHints} {c : Coords}

/-- A range is resolved from its start and its stop. -/
theorem resolve_eq (t : SourceText) (hints : LocationHints) :
    t.resolve hints = (hints.start? t).bind fun start =>
      (hints.stop? t start).map (t.coordsBetween hints start) := by
  unfold resolve LocationHints.start? LocationHints.stop? LocationHints.lastLine
  dsimp only
  cases hints.startoffset.or (hints.startline.map t.offsetOfLine) with
  | none => rfl
  | some start =>
    dsimp only [Option.map_some, Option.bind_some]
    cases hints.endoffset.or
        ((hints.endline.or hints.startline).map fun l => t.offsetOfLine (l + 1)) with
    | none => rfl
    | some stop => rfl

theorem start_le_size {start : Nat} (h : start ∈ hints.start? t) : start ≤ t.size := by
  obtain ⟨_, -, rfl⟩ := Option.map_eq_some_iff.1 h
  exact Nat.min_le_right _ _

/-- The stop is behind the start, and in the text too. -/
theorem stop_bounds {start stop : Nat} (hstart : start ≤ t.size) (h : stop ∈ hints.stop? t start) :
    start ≤ stop ∧ stop ≤ t.size := by
  obtain ⟨_, -, rfl⟩ := Option.map_eq_some_iff.1 h
  omega

/-- The coordinates between two offsets denote the range. -/
theorem denotes_coordsBetween {start stop : Nat} (hle : start ≤ stop) (hstop : stop ≤ t.size) :
    (t.coordsBetween hints start stop).Denotes t hints start stop where
  start_le := hle
  stop_le := hstop
  place := t.offsetOfLine_add_column start
  extent := rfl
  content := rfl
  declared l hl := by
    show hints.lastLine.getD _ = l
    rw [hl]
    rfl
  derived hnone := by
    have hline : (t.coordsBetween hints start stop).endline
        = (t.lineOfOffset (contentStop start stop)).1 := by
      show hints.lastLine.getD _ = _
      rw [hnone]
      rfl
    refine ⟨hline, ?_⟩
    rw [hline]
    exact t.lineOfOffset_mono (Nat.le_max_right _ _)

/-! ### Words -/

end SourceText

/-- The sum of two numbers, if it is not above the largest word. -/
def sum? (largest m n : Nat) : Option Nat :=
  if m + n ≤ largest then some (m + n) else none

/-- A sum that fits does not overflow. -/
theorem sum?_eq {largest m n : Nat} (h : m + n ≤ largest) : sum? largest m n = some (m + n) :=
  if_pos h

theorem mapM_eq_some {α β : Type} {f : α → Option β} {g : α → β} (h : ∀ a, f a = some (g a))
    (a? : Option α) : a?.mapM f = some (a?.map g) := by
  cases a? with
  | none => rfl
  | some a =>
    show (f a).map some = _
    rw [h]
    rfl

namespace SourceText

/-- The bytes from one offset up to another; no answer if they are no range of the text. -/
def slice? (t : SourceText) (start stop : Nat) : Option (List UInt8) :=
  if start ≤ stop ∧ stop ≤ t.size then some (t.slice start stop) else none

/-- `coordsBetween` with words up to a largest one; no answer where something is out of bounds. -/
def coordsBetween? (largest : Nat) (t : SourceText) (hints : LocationHints) (start stop : Nat) :
    Option Coords := do
  let first ← t.lineOfOffset? start
  let last ← t.lineOfOffset? (contentStop start stop)
  let extent ← difference? stop start
  let length ← sum? largest extent 1
  let bytes ← t.slice? start (contentStop start stop)
  some {
    startline := first.1
    column := first.2
    endline := hints.lastLine.getD last.1
    length
    content := String.ofList (Text.decodeLossy bytes) }

/-- `resolve` with words up to a largest one; no answer where something is out of bounds. The line
behind the largest word is that word. -/
def resolveWords? (largest : Nat) (t : SourceText) (hints : LocationHints) :
    Option (Option Coords) := do
  let lineStart ← hints.startline.mapM t.offsetOfLine?
  let lineStop ← hints.lastLine.mapM fun l => t.offsetOfLine? (min (l + 1) largest)
  match hints.startoffset.or lineStart, hints.endoffset.or lineStop with
  | some start, some stop =>
    let start := min start t.size
    (coordsBetween? largest t hints start (max (min stop t.size) start)).map some
  | _, _ => some none

variable {t : SourceText} {hints : LocationHints} {c : Coords} {largest : Nat}

/-- The largest word is a line past the end of the text, like all the lines that it stands for. -/
theorem offsetOfLine_min (h : t.size + 1 < largest) (line : Nat) :
    t.offsetOfLine (min line largest) = t.offsetOfLine line := by
  have hlength := t.length_lineStarts_le
  by_cases hline : line ≤ largest
  · rw [Nat.min_eq_left hline]
  · rw [Nat.min_eq_right (by omega), t.offsetOfLine_of_length_lt (by omega),
      t.offsetOfLine_of_length_lt (by omega)]

/-- In words of a size that is greater than the text nothing overflows. -/
theorem coordsBetween?_eq (h : t.size + 1 < largest) {start stop : Nat} (hle : start ≤ stop)
    (hstop : stop ≤ t.size) :
    coordsBetween? largest t hints start stop = some (t.coordsBetween hints start stop) := by
  have hslice : t.slice? start (contentStop start stop)
      = some (t.slice start (contentStop start stop)) :=
    if_pos ⟨Nat.le_max_right _ _, Nat.max_le.2 ⟨by omega, by omega⟩⟩
  unfold coordsBetween?
  rw [lineOfOffset?_eq, lineOfOffset?_eq, difference?_eq hle, Option.bind_eq_bind, Option.bind_some,
    Option.bind_eq_bind, Option.bind_some, Option.bind_eq_bind, Option.bind_some,
    sum?_eq (by omega), hslice]
  rfl

/-- Words that are enough to count the bytes of a text are enough for all positions in it. -/
theorem resolveWords?_eq (h : t.size + 1 < largest) (hints : LocationHints) :
    t.resolveWords? largest hints = some (t.resolve hints) := by
  have hline : ∀ l, t.offsetOfLine? (min (l + 1) largest) = some (t.offsetOfLine (l + 1)) := by
    intro l
    rw [offsetOfLine?_eq, offsetOfLine_min h]
  unfold resolveWords?
  rw [mapM_eq_some t.offsetOfLine?_eq, mapM_eq_some hline, resolve_eq]
  unfold LocationHints.start? LocationHints.stop?
  show (match hints.startoffset.or (hints.startline.map t.offsetOfLine),
    hints.endoffset.or (hints.lastLine.map fun l => t.offsetOfLine (l + 1)) with
    | some start, some stop => _
    | _, _ => _) = _
  cases hints.startoffset.or (hints.startline.map t.offsetOfLine) with
  | none => rfl
  | some start =>
    cases hints.endoffset.or (hints.lastLine.map fun l => t.offsetOfLine (l + 1)) with
    | none => rfl
    | some stop =>
      dsimp only
      rw [coordsBetween?_eq h (Nat.le_max_right _ _) (by omega)]
      rfl

/-- **Resolved coordinates denote the range of their hints**, and words that are enough to count the
bytes of the text are enough to find them, with nothing out of bounds. -/
theorem denotes_of_resolve (h : t.resolve hints = some c) :
    (∃ start stop, hints.start? t = some start ∧ hints.stop? t start = some stop ∧
      c.Denotes t hints start stop) ∧
    ∀ largest, t.size + 1 < largest → t.resolveWords? largest hints = some (some c) := by
  refine ⟨?_, fun largest hlargest => by rw [resolveWords?_eq hlargest, h]⟩
  rw [resolve_eq] at h
  obtain ⟨start, hstart, h⟩ := Option.bind_eq_some_iff.1 h
  obtain ⟨stop, hstop, rfl⟩ := Option.map_eq_some_iff.1 h
  obtain ⟨hle, hsize⟩ := stop_bounds (start_le_size hstart) hstop
  exact ⟨start, stop, hstart, hstop, denotes_coordsBetween hle hsize⟩

/-- A text that does not end its last line. -/
def openText : SourceText :=
  ⟨Text.encode "int x;\n  y;".toList⟩

/-- Offsets alone, the last of which is past the end of the text. -/
def wideHints : LocationHints :=
  ⟨none, none, some 9, some 40⟩

theorem denotes_of_resolve_wideHints :
    openText.resolve wideHints = some ⟨2, 2, 2, 3, "y"⟩ ∧
    (∃ start stop, wideHints.start? openText = some start ∧
      wideHints.stop? openText start = some stop ∧
      Coords.Denotes ⟨2, 2, 2, 3, "y"⟩ openText wideHints start stop) ∧
    ∀ largest, openText.size + 1 < largest →
      openText.resolveWords? largest wideHints = some (some ⟨2, 2, 2, 3, "y"⟩) :=
  have h : openText.resolve wideHints = some ⟨2, 2, 2, 3, "y"⟩ := rfl
  ⟨h, denotes_of_resolve h⟩

end SourceText

end WitnessReplay
