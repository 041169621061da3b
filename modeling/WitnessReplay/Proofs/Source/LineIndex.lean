import Mathlib.Data.Prod.Lex
import Mathlib.Order.Monotone.Basic
import WitnessReplay.Proofs.Source.LineTable

/-!
# The index of lines

Offsets are lines and columns written in another way, and the two ways of writing them are in the
same order. `IndexesLines` collects the laws: a line is found again where it starts, a line and a
column together are an offset again, the line counts the line ends before the offset, and a later
offset has a later line or a later column on the same line.

The line of an offset is said to be the number of lines that start up to it. It need not be counted,
for the table increases: `partitionPoint?` halves a range of the table until it is empty, and gives
no answer where it would read outside of the table. Sought in this way, and with differences that
give no answer below zero, the line and the column of every offset are the same
(`seekLine?_eq`).
-/

namespace WitnessReplay

/-! ### Search by halves -/

/-- Where the entries that pass a test end, sought in a range of a table that begins with such
entries and goes on with others. There is no answer if an entry is read outside of the table. -/
def partitionPoint? (test : Nat → Bool) (table : List Nat) (low high : Nat) : Option Nat :=
  if low < high then
    match table[low + (high - low) / 2]? with
    | none => none
    | some entry =>
      if test entry then partitionPoint? test table (low + (high - low) / 2 + 1) high
      else partitionPoint? test table low (low + (high - low) / 2)
  else some low
termination_by high - low

/-- If the entries that pass the test are the front of the table, the search ends behind them. -/
theorem partitionPoint?_eq {test : Nat → Bool} {table : List Nat} {n low high : Nat}
    (htest : ∀ i, ∀ h : i < table.length, test table[i] = true ↔ i < n)
    (hlow : low ≤ n) (hhigh : n ≤ high) (hlength : high ≤ table.length) :
    partitionPoint? test table low high = some n := by
  fun_induction partitionPoint? test table low high with
  | case1 low high hlt hnone =>
    have := List.getElem?_eq_none_iff.1 hnone
    omega
  | case2 low high hlt entry hentry hpass ih =>
    obtain ⟨hin, rfl⟩ := List.getElem?_eq_some_iff.1 hentry
    have := (htest _ hin).1 hpass
    exact ih (by omega) hhigh hlength
  | case3 low high hlt entry hentry hfail ih =>
    obtain ⟨hin, rfl⟩ := List.getElem?_eq_some_iff.1 hentry
    have := mt (htest _ hin).2 hfail
    exact ih hlow (by omega) (by omega)
  | case4 low high hle =>
    have : low = n := by omega
    rw [this]

namespace SourceText

/-- The line of an offset and its column there, with the line sought by halves; no answer if a
difference is below zero or an entry outside of the table. -/
def seekLine? (t : SourceText) (offset : Nat) : Option (Nat × Nat) := do
  let line ← partitionPoint? (· ≤ offset) t.lineStarts 0 t.lineStarts.length
  let index ← difference? line 1
  let lineStart ← t.lineStarts[index]?
  let column ← difference? offset lineStart
  some (line, column)

variable (t : SourceText)

theorem partitionPoint?_lineStarts (offset : Nat) :
    partitionPoint? (· ≤ offset) t.lineStarts 0 t.lineStarts.length
      = some (t.lineStarts.countP (· ≤ offset)) := by
  refine partitionPoint?_eq ?_ (Nat.zero_le _) List.countP_le_length (Nat.le_refl _)
  intro i hi
  rw [lt_countP_iff t.pairwise_lineStarts offset hi, decide_eq_true_eq]

theorem seekLine?_eq (offset : Nat) : t.seekLine? offset = some (t.lineOfOffset offset) := by
  rw [← t.lineOfOffset?_eq]
  unfold seekLine? lineOfOffset?
  rw [partitionPoint?_lineStarts]
  rfl

/-! ### Lines and offsets -/

/-- A line of the table is found again at the offset at which it starts, in its first column. -/
theorem lineOfOffset_offsetOfLine {line : Nat} (hpos : 1 ≤ line)
    (hle : line ≤ t.bytes.count 10 + 1) : t.lineOfOffset (t.offsetOfLine line) = (line, 0) := by
  have hlength : t.lineStarts.length = t.bytes.count 10 + 1 := by
    unfold lineStarts
    rw [List.length_cons, length_lineStartsFrom]
  obtain ⟨index, rfl⟩ := Nat.exists_eq_add_of_le' hpos
  have hindex : index < t.lineStarts.length := by omega
  rw [t.offsetOfLine_succ hindex]
  obtain ⟨found, hfound, hcount, hstarts, hline⟩ := t.exists_lineOfOffset t.lineStarts[index]
  -- the line starts up to its own start, and no later line does
  have hup := (lt_countP_iff t.pairwise_lineStarts t.lineStarts[index] hindex).2 (Nat.le_refl _)
  have hsame : found = index := by
    by_contra hne
    have hlater := List.pairwise_iff_getElem.1 t.pairwise_lineStarts index found hindex hfound
      (by omega)
    omega
  subst hsame
  rw [hline, Nat.sub_self]

/-- The line of an offset is one more than the line ends before it. -/
theorem lineOfOffset_eq_count (offset : Nat) :
    (t.lineOfOffset offset).1 = (t.bytes.take offset).count 10 + 1 := by
  have hcount := countP_lineStartsFrom 0 offset t.bytes
  rw [Nat.zero_add] at hcount
  show t.lineStarts.countP (· ≤ offset) = _
  unfold lineStarts
  rw [List.countP_cons_of_pos (by simp), hcount]

/-- A later offset is on a later line, or in a later column of the same line. -/
theorem lineOfOffset_strictMono : StrictMono fun offset => toLex (t.lineOfOffset offset) := by
  intro offset offset' hlt
  have hline := t.lineOfOffset_mono (Nat.le_of_lt hlt)
  have hsum := t.offsetOfLine_add_column offset
  have hsum' := t.offsetOfLine_add_column offset'
  refine Prod.Lex.toLex_lt_toLex.2 ?_
  rcases Nat.lt_or_eq_of_le hline with hbefore | hsame
  · exact .inl hbefore
  · refine .inr ⟨hsame, ?_⟩
    rw [hsame] at hsum
    omega

/-- The laws of the index of lines, for lines and offsets of any size. -/
structure IndexesLines : Prop where
  /-- A line is found again at the offset at which it starts. -/
  ofLine : ∀ line, 1 ≤ line → line ≤ t.bytes.count 10 + 1 →
    t.lineOfOffset (t.offsetOfLine line) = (line, 0)
  /-- A line and a column together are the offset, also past the end of the text. -/
  ofOffset : ∀ offset, t.offsetOfLine (t.lineOfOffset offset).1 + (t.lineOfOffset offset).2 = offset
  /-- The line counts the line ends before the offset. -/
  counts : ∀ offset, (t.lineOfOffset offset).1 = (t.bytes.take offset).count 10 + 1
  /-- Later offsets are on later lines, or in later columns of the same line. -/
  increases : StrictMono fun offset => toLex (t.lineOfOffset offset)
  /-- No difference on the way to an offset is below zero. -/
  offsetInBounds : ∀ line, t.offsetOfLine? line = some (t.offsetOfLine line)
  /-- No difference on the way to a line is below zero, and no entry outside of the table. -/
  lineInBounds : ∀ offset, t.seekLine? offset = some (t.lineOfOffset offset)

/-- **Lines and offsets are found from each other**, and nothing is read outside of the table. -/
theorem indexesLines : t.IndexesLines where
  ofLine _ := t.lineOfOffset_offsetOfLine
  ofOffset := t.offsetOfLine_add_column
  counts := t.lineOfOffset_eq_count
  increases := t.lineOfOffset_strictMono
  offsetInBounds := t.offsetOfLine?_eq
  lineInBounds := t.seekLine?_eq

end SourceText

end WitnessReplay
