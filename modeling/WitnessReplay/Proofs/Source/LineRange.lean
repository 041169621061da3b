import WitnessReplay.Proofs.Source.Range

/-!
# Lines as a range

Hints that name a first and a last line resolve to the range of these lines. It starts where the
first one starts, which is on that line and in column 0 (`SourceText.lineOfOffset_start_of_line`).
It ends where the line behind the last one starts. The content is without the last byte of the
range, and so without the line end of the last line.

The last line of a text may have no line end. The line behind it is then the end of the text, and
the byte that is left out is the last one of the line (`SourceText.resolve_lines`). The statement
that is printed for a person lacks its semicolon (`SourceText.not_content_of_resolve`), and a
character of more than one byte is broken.
-/

namespace WitnessReplay

open Text

namespace SourceText

variable {before rest : List Char}

/-- The start of a line is on that line, in column 0. -/
theorem lineOfOffset_start_of_line (h : endsLine before) (rest : List Char) :
    (mk (encode (before ++ rest))).lineOfOffset (byteSize before)
      = (before.count '\n' + 1, 0) := by
  have hline := lineOfOffset_byteSize before rest
  have hcolumn := (mk (encode (before ++ rest))).offsetOfLine_add_column (byteSize before)
  rw [hline, offsetOfLine_count_add_one h rest] at hcolumn
  refine Prod.ext hline ?_
  show _ = 0
  omega

/-- Lines resolve by where the line behind them starts. -/
theorem exists_resolve {last extent : Nat} (h : endsLine before)
    (hstop : (mk (encode (before ++ rest))).offsetOfLine (last + 1) = byteSize before + extent)
    (hextent : extent ≤ byteSize rest) :
    ∃ c, (mk (encode (before ++ rest))).resolve
        ⟨some (before.count '\n' + 1), some last, none, none⟩ = some c ∧
      c.startline = before.count '\n' + 1 ∧ c.column = 0 ∧ c.endline = last ∧
      c.content = String.ofList (decodeLossy ((encode rest).take (extent - 1))) := by
  have hline := lineOfOffset_start_of_line h rest
  have hstart := offsetOfLine_count_add_one h rest
  have hsize := size_mk_encode (before ++ rest)
  rw [byteSize_append] at hsize
  have hresolve : (mk (encode (before ++ rest))).resolve
        ⟨some (before.count '\n' + 1), some last, none, none⟩
      = some ((mk (encode (before ++ rest))).coordsBetween
        ⟨some (before.count '\n' + 1), some last, none, none⟩ (byteSize before)
        (byteSize before + extent)) := by
    rw [resolve_eq]
    show some (coordsBetween _ _ (min (offsetOfLine _ _) _) (max (min (offsetOfLine _ _) _)
      (min (offsetOfLine _ _) _))) = _
    rw [hstart, hstop, hsize, Nat.min_eq_left (by omega), Nat.min_eq_left (by omega),
      Nat.max_eq_left (by omega)]
  -- the last byte of the range is cut off, whatever it is
  have hcontent : contentStop (byteSize before) (byteSize before + extent)
      = byteSize before + (extent - 1) := by
    unfold contentStop
    omega
  refine ⟨_, hresolve, congrArg Prod.fst hline, congrArg Prod.snd hline, rfl, ?_⟩
  show String.ofList (decodeLossy (slice _ _ (contentStop _ _))) = _
  unfold slice
  rw [hcontent, encode_append, List.drop_left' (length_encode before), Nat.add_sub_cancel_left]

variable {cs : List Char} {first last : Nat}

/-- **Hints of two lines resolve to the text of the lines** where the text has a line end behind the
last of them. Where it has none, the last byte of the text is missing. -/
theorem resolve_lines (hfirst : 1 ≤ first) (hle : first ≤ last) (hlast : last ≤ lineCount cs) :
    ∃ c, (mk (encode cs)).resolve ⟨some first, some last, none, none⟩ = some c ∧
      c.startline = first ∧ c.column = 0 ∧ c.endline = last ∧
      (last ≤ cs.count '\n' → c.content = String.ofList (linesText first last cs)) ∧
      (cs.count '\n' < last → linesText first last cs ≠ [] ∧
        c.content = String.ofList (clipped (linesText first last cs))) := by
  obtain ⟨before, behind, hcs, hends, hbefore, hcount, hclosed, hopen⟩ :=
    exists_linesText hfirst hle hlast
  generalize linesText first last cs = lines at hcs hcount hopen ⊢
  rw [List.append_assoc] at hcs
  subst hcs
  obtain rfl : first = before.count '\n' + 1 := by omega
  by_cases hmore : last ≤ (before ++ (lines ++ behind)).count '\n'
  · -- the range ends behind the line end of the last line
    obtain ⟨rest, rfl⟩ := hclosed hmore
    have hsplit : before ++ (lines ++ '\n' :: rest) = before ++ lines ++ ['\n'] ++ rest := by simp
    have hstop := offsetOfLine_count_add_one (endsLine_concat (before ++ lines)) rest
    have hlines : (before ++ lines ++ ['\n']).count '\n' = last := by
      rw [List.count_append, List.count_append, List.count_singleton_self]
      omega
    rw [hlines, ← hsplit, byteSize_append, byteSize_append, Nat.add_assoc] at hstop
    obtain ⟨c, hc, hline, hcolumn, hend, hcontent⟩ := exists_resolve hends hstop (by simp)
    refine ⟨c, hc, hline, hcolumn, hend, fun _ => ?_, by omega⟩
    rw [hcontent, encode_append]
    show String.ofList (decodeLossy ((encode lines ++ _).take (byteSize lines))) = _
    rw [List.take_left' (length_encode lines), decodeLossy_encode]
  · -- the range ends at the end of the text
    obtain ⟨rfl, hne⟩ := hopen (Nat.lt_of_not_le hmore)
    rw [List.append_nil] at hmore ⊢
    have hlength : (mk (encode (before ++ lines))).lineStarts.length < last + 1 := by
      rw [length_lineStarts]
      omega
    have hstop := offsetOfLine_of_length_lt _ hlength
    rw [size_mk_encode, byteSize_append] at hstop
    obtain ⟨c, hc, hline, hcolumn, hend, hcontent⟩ := exists_resolve hends hstop (Nat.le_refl _)
    refine ⟨c, hc, hline, hcolumn, hend, by omega, fun _ => ⟨hne, ?_⟩⟩
    rw [hcontent, ← length_encode, ← List.dropLast_eq_take, decodeLossy_dropLast]

/-- Two lines, the last of which has no line end and ends in a character of two bytes. -/
def unendedText : List Char :=
  "a;\nb; // é".toList

theorem resolve_lines_unendedText :
    (1 ≤ 1 ∧ 1 ≤ 2 ∧ 2 ≤ lineCount unendedText ∧ unendedText.count '\n' < 2) ∧
    ∃ c, (mk (encode unendedText)).resolve ⟨some 1, some 2, none, none⟩ = some c ∧
      c.startline = 1 ∧ c.column = 0 ∧ c.endline = 2 ∧ c.content = "a;\nb; // \uFFFD" := by
  have hlast : 2 ≤ lineCount unendedText := by decide
  obtain ⟨c, hc, hline, hcolumn, hend, -, hopen⟩ := resolve_lines (Nat.le_refl 1) (by decide) hlast
  refine ⟨⟨by decide, by decide, hlast, by decide⟩, c, hc, hline, hcolumn, hend, ?_⟩
  rw [(hopen (by decide)).2]
  decide

/-- The text of a last line without line end is not what its hints resolve to. -/
theorem not_content_of_resolve : ¬ ∀ (cs : List Char) (first last : Nat), 1 ≤ first →
    first ≤ last → last ≤ lineCount cs →
    ∃ c, (mk (encode cs)).resolve ⟨some first, some last, none, none⟩ = some c ∧
      c.startline = first ∧ c.column = 0 ∧ c.endline = last ∧
      c.content = String.ofList (linesText first last cs) := by
  intro h
  obtain ⟨c, hc, -, -, -, hcontent⟩ := h "int x;".toList 1 1 (by decide) (by decide) (by decide)
  have hresolve : (mk (encode "int x;".toList)).resolve ⟨some 1, some 1, none, none⟩
      = some ⟨1, 0, 1, 7, "int x"⟩ := rfl
  rw [hresolve] at hc
  obtain rfl := Option.some.inj hc
  exact absurd hcontent (by decide)

end SourceText

end WitnessReplay
