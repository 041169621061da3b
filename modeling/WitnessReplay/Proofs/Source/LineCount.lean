import WitnessReplay.Proofs.Source.Relexing
import WitnessReplay.Proofs.Text.Utf8
import WitnessReplay.Source.Position

/-!
# Two counters of lines

Lines are counted twice. The lexer adds up the line ends that it passes; a position in the text is
looked up among the offsets at which lines start. Both count the line ends before a place, one in
characters and one in bytes, and so they agree on every token (`lineOfOffset_start`).
-/

namespace WitnessReplay

open Text

theorem length_encode (cs : List Char) : (encode cs).length = byteSize cs := by
  induction cs with
  | nil => rfl
  | cons c cs ih =>
    rw [encode_cons, List.length_append, ih, String.length_utf8EncodeChar, byteSize_cons]

theorem count_utf8EncodeChar (c : Char) :
    (String.utf8EncodeChar c).count 10 = if c = '\n' then 1 else 0 := by
  split
  next h => rw [h]; rfl
  next h => exact List.count_eq_zero.2 fun hmem => h (newline_mem_utf8EncodeChar hmem)

theorem count_encode (cs : List Char) : (encode cs).count 10 = cs.count '\n' := by
  induction cs with
  | nil => rfl
  | cons c cs ih =>
    rw [encode_cons, List.count_append, ih, count_utf8EncodeChar, List.count_cons]
    simp only [beq_iff_eq]
    omega

/-! ### Lines of offsets -/

theorem length_lineStartsFrom (offset : Nat) (bytes : List UInt8) :
    (lineStartsFrom offset bytes).length = bytes.count 10 := by
  induction bytes generalizing offset with
  | nil => rfl
  | cons b bytes ih =>
    rw [lineStartsFrom, List.count_cons]
    split
    next hb => simp [ih, hb]
    next hb => simp [ih, hb]

theorem lt_of_mem_lineStartsFrom {offset start : Nat} {bytes : List UInt8}
    (h : start ∈ lineStartsFrom offset bytes) : offset < start := by
  induction bytes generalizing offset with
  | nil => cases h
  | cons b bytes ih =>
    rw [lineStartsFrom] at h
    split at h
    · rcases List.mem_cons.1 h with rfl | h
      · omega
      · have := ih h
        omega
    · have := ih h
      omega

/-- The lines that start up to an offset are as many as the line ends before it. -/
theorem countP_lineStartsFrom (offset n : Nat) (bytes : List UInt8) :
    (lineStartsFrom offset bytes).countP (· ≤ offset + n) = (bytes.take n).count 10 := by
  induction bytes generalizing offset n with
  | nil => simp [lineStartsFrom]
  | cons b bytes ih =>
    cases n with
    | zero =>
      rw [List.take_zero, List.count_nil, List.countP_eq_zero]
      intro start hstart
      have := lt_of_mem_lineStartsFrom hstart
      simpa using this
    | succ n =>
      have hrest := ih (offset + 1) n
      rw [Nat.add_right_comm, Nat.add_assoc] at hrest
      rw [lineStartsFrom, List.take_succ_cons, List.count_cons]
      split
      next hb => simp [hrest, hb]
      next hb => simp [hrest, hb]

namespace SourceText

variable {before rest : List Char}

/-- The line of an offset is one more than the line ends before it. -/
theorem lineOfOffset_byteSize (before rest : List Char) :
    ((mk (encode (before ++ rest))).lineOfOffset (byteSize before)).1
      = before.count '\n' + 1 := by
  have hcount := countP_lineStartsFrom 0 (byteSize before) (encode (before ++ rest))
  rw [Nat.zero_add, encode_append, List.take_left' (length_encode before), count_encode] at hcount
  rw [lineOfOffset]
  dsimp only
  rw [lineStarts, List.countP_cons_of_pos (by simp), encode_append, hcount]

end SourceText

namespace Token

/-- A token stands behind as many bytes as its offset says, and behind as many line ends as its line
says; it is not at the end. -/
theorem exists_before_of_lexed {place : Cursor} {ts : List Token} {after : List Char}
    (h : Lexed place ts after) : ∀ t ∈ ts, ∃ before rest,
      (spaced ts).toList ++ after = before ++ rest ∧ rest ≠ [] ∧
        t.start = place.offset + byteSize before ∧ t.line = place.line + before.count '\n' := by
  induction ts generalizing place with
  | nil => exact List.forall_mem_nil _
  | cons u ts ih =>
    obtain ⟨-, hstart, hline, hstands, hrest⟩ := h
    intro t ht
    rcases List.mem_cons.1 ht with rfl | ht
    · refine ⟨t.gap.toList, t.text.toList ++ ((spaced ts).toList ++ after), by simp [spaced], ?_,
        hstart, hline⟩
      simp [hstands.ne_nil]
    · obtain ⟨before, rest, happend, hne, hstart, hline⟩ := ih hrest t ht
      refine ⟨u.gap.toList ++ u.text.toList ++ before, rest, by simp [spaced, happend], hne, ?_, ?_⟩
      · rw [hstart, byteSize_append, byteSize_append]
        show place.offset + byteSize u.gap.toList + byteSize u.text.toList + _ = _
        omega
      · rw [hline, List.count_append, List.count_append]
        show place.line + u.gap.toList.count '\n' + u.text.toList.count '\n' + _ = _
        omega

end Token

open Token

section

variable {source : String} {ts : List Token}

/-- **The two counters of lines agree on every token.** -/
theorem lineOfOffset_start (h : tokenize source = .ok ts) {t : Token} (ht : t ∈ ts) :
    ((SourceText.mk (encode source.toList)).lineOfOffset t.start).1 = t.line ∧
      t.start ≤ (SourceText.mk (encode source.toList)).size := by
  obtain ⟨after, hsource, hlexed, -⟩ := lexed_of_tokenizeFrom h
  obtain ⟨before, rest, happend, -, hstart, hline⟩ := exists_before_of_lexed hlexed t ht
  have hstart : t.start = byteSize before := hstart.trans (Nat.zero_add _)
  rw [hsource, happend, hstart, SourceText.size, length_encode, byteSize_append]
  refine ⟨?_, Nat.le_add_right _ _⟩
  rw [SourceText.lineOfOffset_byteSize, hline, Nat.add_comm]
  rfl

/-- Tokens come in the order of their lines. -/
theorem pairwise_line_of_lexed {place : Cursor} {after : List Char} (h : Lexed place ts after) :
    ts.Pairwise (·.line ≤ ·.line) := by
  induction ts generalizing place with
  | nil => exact .nil
  | cons t ts ih =>
    obtain ⟨-, -, hline, -, hrest⟩ := h
    refine .cons ?_ (ih hrest)
    intro u hu
    obtain ⟨before, -, -, -, -, hbehind⟩ := exists_before_of_lexed hrest u hu
    rw [hbehind, hline]
    show _ ≤ (place.skip t.gap.toList).line + t.text.toList.count '\n' + _
    omega

theorem pairwise_line_of_tokenize (h : tokenize source = .ok ts) :
    ts.Pairwise (·.line ≤ ·.line) := by
  obtain ⟨after, -, hlexed, -⟩ := lexed_of_tokenizeFrom h
  exact pairwise_line_of_lexed hlexed

/-- The text of a directive begins with a number sign. -/
theorem head?_of_directive (h : tokenize source = .ok ts) {t : Token} (ht : t ∈ ts)
    (hk : t.kind = .directive) : t.text.toList.head? = some '#' := by
  obtain ⟨after, -, hlexed, -⟩ := lexed_of_tokenizeFrom h
  obtain ⟨fresh, behind, hstands⟩ := hlexed.stands t ht
  obtain ⟨-, cs, htext, -⟩ := hstands.of_directive hk
  rw [htext]
  rfl

end

end WitnessReplay
