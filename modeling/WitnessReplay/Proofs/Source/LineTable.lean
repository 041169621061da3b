import WitnessReplay.Proofs.Source.LineCount
import WitnessReplay.Proofs.Text.Line

/-!
# The table of lines

A position in a text is found by the table of the offsets at which lines start. The table begins
with 0 and increases, so the starts up to an offset are its front (`lt_countP_iff`), and the line of
an offset is the last one that starts there or before. That is why a line and a column together are
an offset again (`offsetOfLine_add_column`) and why later offsets are not on earlier lines
(`lineOfOffset_mono`).

Numbers here are natural, and what would be below zero is zero. `difference?`, `offsetOfLine?` and
`lineOfOffset?` give no answer instead, neither there nor where an index is outside of the table.
They always answer, and with the same numbers.
-/

namespace WitnessReplay

open Text

/-! ### The table increases -/

theorem pairwise_lineStartsFrom (offset : Nat) (bytes : List UInt8) :
    (lineStartsFrom offset bytes).Pairwise (· < ·) := by
  induction bytes generalizing offset with
  | nil => exact .nil
  | cons b bytes ih =>
    unfold lineStartsFrom
    split
    · exact .cons (fun start hstart => lt_of_mem_lineStartsFrom hstart) (ih (offset + 1))
    · exact ih (offset + 1)

/-- The line starts of two texts, one behind the other. -/
theorem lineStartsFrom_append (offset : Nat) (as bs : List UInt8) :
    lineStartsFrom offset (as ++ bs) =
      lineStartsFrom offset as ++ lineStartsFrom (offset + as.length) bs := by
  induction as generalizing offset with
  | nil => rfl
  | cons a as ih =>
    have hoffset : offset + (a :: as).length = offset + 1 + as.length := by
      rw [List.length_cons]
      omega
    rw [hoffset, List.cons_append, lineStartsFrom, lineStartsFrom, ih]
    split <;> rfl

/-- In an increasing list the numbers up to a bound are the front. -/
theorem lt_countP_iff {l : List Nat} (hl : l.Pairwise (· < ·)) (bound : Nat) {i : Nat}
    (hi : i < l.length) : i < l.countP (· ≤ bound) ↔ l[i] ≤ bound := by
  induction l generalizing i with
  | nil => cases hi
  | cons a l ih =>
    obtain ⟨hfirst, hrest⟩ := List.pairwise_cons.1 hl
    by_cases ha : a ≤ bound
    · rw [List.countP_cons_of_pos (by simpa using ha)]
      cases i with
      | zero => simp [ha]
      | succ i =>
        rw [List.getElem_cons_succ, ← ih hrest (Nat.lt_of_succ_lt_succ hi)]
        omega
    · -- nothing behind a number above the bound is below it
      have habove : ∀ b ∈ a :: l, ¬ b ≤ bound := by
        intro b hb
        rcases List.mem_cons.1 hb with rfl | hb
        · exact ha
        · have := hfirst b hb
          omega
      have hnone : (a :: l).countP (· ≤ bound) = 0 := by
        rw [List.countP_eq_zero]
        intro b hb
        rw [decide_eq_true_eq]
        exact habove b hb
      rw [hnone]
      exact iff_of_false (Nat.not_lt_zero i) (habove _ (List.getElem_mem hi))

namespace SourceText

variable (t : SourceText)

theorem pairwise_lineStarts : t.lineStarts.Pairwise (· < ·) :=
  .cons (fun _ hstart => lt_of_mem_lineStartsFrom hstart) (pairwise_lineStartsFrom 0 t.bytes)

/-- A line of the table starts at its entry. -/
theorem offsetOfLine_succ {index : Nat} (h : index < t.lineStarts.length) :
    t.offsetOfLine (index + 1) = t.lineStarts[index] := by
  unfold offsetOfLine
  split
  next hone =>
    obtain rfl : index = 0 := by omega
    rfl
  next => rw [Nat.add_sub_cancel, List.getD_eq_getElem?_getD, List.getElem?_eq_getElem h]; rfl

/-- A line behind the table starts at the end of the text. -/
theorem offsetOfLine_of_length_lt {line : Nat} (h : t.lineStarts.length < line) :
    t.offsetOfLine line = t.size := by
  have hpos : 0 < t.lineStarts.length := Nat.succ_pos _
  unfold offsetOfLine
  rw [if_neg (by omega), List.getD_eq_getElem?_getD, List.getElem?_eq_none (by omega)]
  rfl

/-- The table has no more entries than there are bytes, and one. -/
theorem length_lineStarts_le : t.lineStarts.length ≤ t.size + 1 := by
  unfold lineStarts
  rw [List.length_cons, length_lineStartsFrom]
  exact Nat.succ_le_succ List.count_le_length

/-- The line of an offset is the last line of the table that starts there or before. -/
theorem exists_lineOfOffset (offset : Nat) : ∃ index, ∃ h : index < t.lineStarts.length,
    t.lineStarts.countP (· ≤ offset) = index + 1 ∧ t.lineStarts[index] ≤ offset ∧
      t.lineOfOffset offset = (index + 1, offset - t.lineStarts[index]) := by
  have hlength := List.countP_le_length (p := (· ≤ offset)) (l := t.lineStarts)
  have hfirst : 0 < t.lineStarts.countP (· ≤ offset) :=
    (lt_countP_iff t.pairwise_lineStarts offset (Nat.succ_pos _)).2 (Nat.zero_le offset)
  obtain ⟨index, hindex⟩ := Nat.exists_eq_add_one_of_ne_zero (Nat.ne_of_gt hfirst)
  have hlt : index < t.lineStarts.length := by omega
  refine ⟨index, hlt, hindex, ?_, ?_⟩
  · exact (lt_countP_iff t.pairwise_lineStarts offset hlt).1 (by omega)
  · unfold lineOfOffset
    rw [hindex]
    dsimp only
    rw [Nat.add_sub_cancel, List.getD_eq_getElem?_getD, List.getElem?_eq_getElem hlt]
    rfl

/-- A line and a column together are the offset that they were found for. -/
theorem offsetOfLine_add_column (offset : Nat) :
    t.offsetOfLine (t.lineOfOffset offset).1 + (t.lineOfOffset offset).2 = offset := by
  obtain ⟨index, hlt, -, hle, hline⟩ := t.exists_lineOfOffset offset
  rw [hline, t.offsetOfLine_succ hlt]
  omega

/-- Later offsets are not on earlier lines. -/
theorem lineOfOffset_mono {offset offset' : Nat} (h : offset ≤ offset') :
    (t.lineOfOffset offset).1 ≤ (t.lineOfOffset offset').1 := by
  unfold lineOfOffset
  dsimp only
  refine List.countP_mono_left fun start _ hstart => ?_
  rw [decide_eq_true_eq] at hstart ⊢
  omega

/-! ### Lines of a text -/

theorem size_mk_encode (cs : List Char) : (mk (encode cs)).size = byteSize cs :=
  length_encode cs

/-- There is one line start more than there are line ends. -/
theorem length_lineStarts (cs : List Char) :
    (mk (encode cs)).lineStarts.length = cs.count '\n' + 1 := by
  rw [lineStarts, List.length_cons, length_lineStartsFrom, count_encode]

/-- The line behind some line ends starts where the last of them ends. -/
theorem offsetOfLine_count_add_one {before : List Char} (h : endsLine before) (rest : List Char) :
    (mk (encode (before ++ rest))).offsetOfLine (before.count '\n' + 1) = byteSize before := by
  by_cases hne : before = []
  · rw [hne]
    rfl
  obtain ⟨init, rfl⟩ := exists_concat_of_endsLine h hne
  have hbytes : encode (init ++ ['\n'] ++ rest) = encode init ++ 10 :: encode rest := by
    rw [encode_append, encode_append, List.append_assoc]
    rfl
  have hstarts : (mk (encode (init ++ ['\n'] ++ rest))).lineStarts
      = (0 :: lineStartsFrom 0 (encode init))
        ++ (byteSize init + 1) :: lineStartsFrom (byteSize init + 1) (encode rest) := by
    unfold lineStarts
    rw [hbytes, lineStartsFrom_append, Nat.zero_add, length_encode]
    rfl
  have hlength : (0 :: lineStartsFrom 0 (encode init)).length = init.count '\n' + 1 := by
    rw [List.length_cons, length_lineStartsFrom, count_encode]
  rw [List.count_append, List.count_singleton_self]
  unfold offsetOfLine
  rw [if_neg (by omega), Nat.add_sub_cancel, hstarts, List.getD_eq_getElem?_getD,
    List.getElem?_append_right (Nat.le_of_eq hlength), hlength, Nat.sub_self, byteSize_append]
  rfl

/-! ### Nothing is read outside of the table -/

end SourceText

/-- The difference of two numbers, if it is not below zero. -/
def difference? (m n : Nat) : Option Nat :=
  if n ≤ m then some (m - n) else none

/-- A smaller number can be taken from a greater one. -/
theorem difference?_eq {m n : Nat} (h : n ≤ m) : difference? m n = some (m - n) :=
  if_pos h

namespace SourceText

/-- The number of bytes before a line; no answer if a difference is below zero. -/
def offsetOfLine? (t : SourceText) (line : Nat) : Option Nat :=
  if line ≤ 1 then some 0
  else (difference? line 1).map fun index => t.lineStarts.getD index t.size

/-- The line of an offset and its column there; no answer if a difference is below zero or an index
outside of the table. -/
def lineOfOffset? (t : SourceText) (offset : Nat) : Option (Nat × Nat) := do
  let line := t.lineStarts.countP (· ≤ offset)
  let index ← difference? line 1
  let lineStart ← t.lineStarts[index]?
  let column ← difference? offset lineStart
  some (line, column)

variable (t : SourceText)

/-- The start of a line is found without an index out of range. -/
theorem offsetOfLine?_eq (line : Nat) : t.offsetOfLine? line = some (t.offsetOfLine line) := by
  unfold offsetOfLine? offsetOfLine
  split
  next => rfl
  next h => rw [difference?_eq (by omega)]; rfl

theorem lineOfOffset?_eq (offset : Nat) :
    t.lineOfOffset? offset = some (t.lineOfOffset offset) := by
  -- the line is found in the table, and its start is not behind the offset
  obtain ⟨index, hlt, hcount, hle, hline⟩ := t.exists_lineOfOffset offset
  unfold lineOfOffset?
  rw [hline, hcount]
  dsimp only
  rw [difference?_eq (Nat.le_add_left 1 index), Option.bind_eq_bind, Option.bind_some,
    Nat.add_sub_cancel, List.getElem?_eq_getElem hlt, Option.bind_some, difference?_eq hle]
  rfl

end SourceText

end WitnessReplay
