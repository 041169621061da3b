import Mathlib.Data.List.Basic
import WitnessReplay.Proofs.Text.Blank
import WitnessReplay.Proofs.Text.Utf8

/-!
# Lines of a text

A text is split at its line ends into one piece more than there are line ends, and joined again at
them it is the text (`intercalate_splitAt`). So some lines in a row stand in the text between what
is before them, which has its line ends, and what is behind them: the line end of the last one, or
nothing at the end of the text (`exists_linesText`).

If the last byte of a text is cut off, the text is read without its last character. A character of
more than one byte is broken by that and read as the replacement character (`decodeLossy_dropLast`).
-/

namespace WitnessReplay

namespace Text

/-! ### Joining pieces -/

/-- Pieces with the mark between them are the text again. -/
theorem intercalate_splitAt (sep : Char) (cs : List Char) :
    List.intercalate [sep] (splitAt sep cs) = cs := by
  induction cs with
  | nil => rfl
  | cons c cs ih =>
    obtain ⟨piece, pieces, hpieces⟩ := List.exists_cons_of_ne_nil (splitAt_ne_nil sep cs)
    unfold splitAt
    rw [hpieces] at ih ⊢
    split
    next hc => rw [List.intercalate_cons_cons, ih, hc]; rfl
    next =>
      rw [← ih]
      cases pieces with
      | nil => rfl
      | cons second pieces => rw [List.intercalate_cons_cons, List.intercalate_cons_cons]; rfl

/-- There is one piece more than there are marks. -/
theorem length_splitAt (sep : Char) (cs : List Char) :
    (splitAt sep cs).length = cs.count sep + 1 := by
  induction cs with
  | nil => rfl
  | cons c cs ih =>
    obtain ⟨piece, pieces, hpieces⟩ := List.exists_cons_of_ne_nil (splitAt_ne_nil sep cs)
    rw [hpieces] at ih
    unfold splitAt
    rw [hpieces, List.count_cons]
    split
    next hc => simpa [hc] using ih
    next hc => simpa [hc] using ih

theorem not_mem_of_mem_splitAt {sep : Char} {cs piece : List Char} (h : piece ∈ splitAt sep cs) :
    sep ∉ piece := by
  induction cs generalizing piece with
  | nil =>
    obtain rfl := List.mem_singleton.1 h
    exact List.not_mem_nil
  | cons c cs ih =>
    obtain ⟨first, pieces, hpieces⟩ := List.exists_cons_of_ne_nil (splitAt_ne_nil sep cs)
    unfold splitAt at h
    rw [hpieces] at h ih
    split at h
    next =>
      rcases List.mem_cons.1 h with rfl | h
      · exact List.not_mem_nil
      · exact ih h
    next hc =>
      rcases List.mem_cons.1 h with rfl | h
      · exact List.not_mem_cons_of_ne_of_not_mem (Ne.symm hc) (ih List.mem_cons_self)
      · exact ih (List.mem_cons_of_mem _ h)

/-- Pieces with a separator behind each. -/
def ended (sep : Char) (pieces : List (List Char)) : List Char :=
  pieces.flatMap (· ++ [sep])

/-- Pieces in front are each ended by the mark. -/
theorem intercalate_append (sep : Char) (as : List (List Char)) {bs : List (List Char)}
    (hbs : bs ≠ []) :
    List.intercalate [sep] (as ++ bs) = ended sep as ++ List.intercalate [sep] bs := by
  induction as with
  | nil => rfl
  | cons a as ih =>
    obtain ⟨b, bs', hcons⟩ := List.exists_cons_of_ne_nil (l := as ++ bs) (by simp [hbs])
    rw [hcons] at ih
    rw [List.cons_append, hcons, List.intercalate_cons_cons, ih]
    simp [ended]

/-- There are as many marks as pieces that are ended. -/
theorem count_ended {sep : Char} {pieces : List (List Char)} (h : ∀ piece ∈ pieces, sep ∉ piece) :
    (ended sep pieces).count sep = pieces.length := by
  induction pieces with
  | nil => rfl
  | cons piece pieces ih =>
    obtain ⟨hpiece, hrest⟩ := List.forall_mem_cons.1 h
    show ((piece ++ [sep]) ++ ended sep pieces).count sep = _
    rw [List.count_append, List.count_append, ih hrest, List.count_eq_zero.2 hpiece,
      List.count_singleton_self, List.length_cons]
    omega

/-- Separators behind the pieces are those between them, and one behind the last. -/
theorem ended_eq {sep : Char} {pieces : List (List Char)} (h : pieces ≠ []) :
    ended sep pieces = List.intercalate [sep] pieces ++ [sep] := by
  obtain ⟨init, last, rfl⟩ := (List.eq_nil_or_concat' pieces).resolve_left h
  rw [intercalate_append sep init (List.cons_ne_nil last []), List.intercalate_singleton]
  simp [ended]

end Text

open Text

/-! ### Line ends -/

/-- Whether every line of a text has its line end. -/
def endsLine (cs : List Char) : Bool :=
  cs.getLast?.all (· == '\n')

/-- The number of lines of a text. A last line without line end counts. -/
def lineCount (cs : List Char) : Nat :=
  cs.count '\n' + if endsLine cs then 0 else 1

/-- A text that ends its line ends in a line end, unless it is empty. -/
theorem exists_concat_of_endsLine {cs : List Char} (h : endsLine cs) (hne : cs ≠ []) :
    ∃ init, cs = init ++ ['\n'] := by
  rw [endsLine, List.getLast?_eq_some_getLast hne] at h
  refine ⟨cs.dropLast, ?_⟩
  rw [← eq_of_beq (h : (cs.getLast hne == '\n') = true), List.dropLast_append_getLast]

theorem endsLine_concat (cs : List Char) : endsLine (cs ++ ['\n']) := by
  unfold endsLine
  rw [List.getLast?_concat]
  rfl

/-- Lines that are ended end the line. -/
theorem endsLine_ended (pieces : List (List Char)) : endsLine (ended '\n' pieces) := by
  by_cases h : pieces = []
  · rw [h]
    rfl
  · rw [ended_eq h]
    exact endsLine_concat _

/-- A text has at most one line more than line ends. -/
theorem lineCount_le (cs : List Char) : lineCount cs ≤ cs.count '\n' + 1 := by
  unfold lineCount
  split <;> omega

/-- Only the last line may have no line end. -/
theorem endsLine_eq_false {cs : List Char} (h : cs.count '\n' < lineCount cs) :
    endsLine cs = false := by
  unfold lineCount at h
  split at h
  next => omega
  next hends => exact Bool.eq_false_iff.2 hends

namespace Text

/-! ### Lines in a row -/

/-- The text of the lines from one up to another, with the line ends between them. -/
def linesText (first last : Nat) (cs : List Char) : List Char :=
  List.intercalate ['\n'] (((splitAt '\n' cs).drop (first - 1)).take (last + 1 - first))

variable {cs : List Char} {first last : Nat}

/-- **Lines stand behind the lines before them, and before the line end of the last one.** There is
none only if they go up to the end of the text and that has none. -/
theorem exists_linesText (hfirst : 1 ≤ first) (hle : first ≤ last) (hlast : last ≤ lineCount cs) :
    ∃ before behind, cs = before ++ linesText first last cs ++ behind ∧ endsLine before ∧
      before.count '\n' = first - 1 ∧ (linesText first last cs).count '\n' = last - first ∧
      (last ≤ cs.count '\n' → ∃ rest, behind = '\n' :: rest) ∧
      (cs.count '\n' < last → behind = [] ∧ linesText first last cs ≠ []) := by
  have hbound := Nat.le_trans hlast (lineCount_le cs)
  have hlength := length_splitAt '\n' cs
  have hpieces : ∀ piece ∈ splitAt '\n' cs, '\n' ∉ piece := fun _ => not_mem_of_mem_splitAt
  have hjoined := intercalate_splitAt '\n' cs
  unfold linesText
  generalize splitAt '\n' cs = pieces at hlength hpieces hjoined ⊢
  -- the pieces before the lines, those of the lines and those behind them
  obtain ⟨as, ms, ds, rfl, has, hms⟩ : ∃ as ms ds, pieces = as ++ (ms ++ ds) ∧
      as.length = first - 1 ∧ ms.length = last + 1 - first := by
    refine ⟨pieces.take (first - 1), (pieces.drop (first - 1)).take (last + 1 - first),
      (pieces.drop (first - 1)).drop (last + 1 - first), ?_, ?_, ?_⟩
    · rw [List.take_append_drop, List.take_append_drop]
    · rw [List.length_take]
      omega
    · rw [List.length_take, List.length_drop]
      omega
  have hne : ms ≠ [] := List.ne_nil_of_length_pos (by omega)
  -- with a line end behind each there is one more than in their text
  have hcount := count_ended fun piece hpiece =>
    hpieces piece (List.mem_append_right _ (List.mem_append_left ds hpiece))
  rw [ended_eq hne, List.count_append, List.count_singleton_self] at hcount
  rw [intercalate_append _ as (List.append_ne_nil_of_left_ne_nil hne ds)] at hjoined
  rw [List.length_append, List.length_append] at hlength
  rw [List.drop_left' has, List.take_left' hms]
  have hbefore : (ended '\n' as).count '\n' = first - 1 :=
    (count_ended fun piece hpiece => hpieces piece (List.mem_append_left _ hpiece)).trans has
  by_cases hds : ds = []
  · subst hds
    rw [List.append_nil] at hjoined
    rw [List.length_nil] at hlength
    refine ⟨_, [], by rw [List.append_nil, hjoined], endsLine_ended as, hbefore, by omega,
      by omega, fun hopen => ⟨rfl, fun hnil => ?_⟩⟩
    -- without a text the last line would have its line end
    have hends := endsLine_eq_false (Nat.lt_of_lt_of_le hopen hlast)
    rw [← hjoined, hnil, List.append_nil, endsLine_ended] at hends
    cases hends
  · rw [intercalate_append _ ms hds, ended_eq hne, List.append_assoc] at hjoined
    have hpos := List.length_pos_iff.2 hds
    exact ⟨_, '\n' :: List.intercalate ['\n'] ds, by rw [← hjoined, List.append_assoc]; rfl,
      endsLine_ended as, hbefore, by omega, fun _ => ⟨_, rfl⟩, by omega⟩

/-! ### A text without its last byte -/

/-- What is read of a text whose last byte is cut off. A character of which some bytes are left is
broken. -/
def clipped (cs : List Char) : List Char :=
  cs.getLast?.elim [] fun c => cs.dropLast ++ if c.utf8Size = 1 then [] else ['\uFFFD']

/-- What was encoded is decoded in front of any bytes. -/
theorem decodeFrom_encode_append (cs : List Char) (rest : List UInt8) :
    decodeFrom none (encode cs ++ rest) = cs.map some ++ decodeFrom none rest := by
  induction cs with
  | nil => rfl
  | cons c cs ih =>
    rw [encode_cons, List.append_assoc, decodeFrom_utf8EncodeChar, ih, List.map_cons]
    rfl

/-- The bytes of a character but the last are none or are read as one that is broken. -/
theorem decodeFrom_dropLast_utf8EncodeChar (c : Char) :
    decodeFrom none (String.utf8EncodeChar c).dropLast =
      if c.utf8Size = 1 then [] else [none] := by
  have hvalid : c.val.toNat < 0xD800 ∨ 0xDFFF < c.val.toNat ∧ c.val.toNat < 0x110000 := c.valid
  rw [← String.length_utf8EncodeChar c, String.utf8EncodeChar]
  -- without the last byte the lead byte waits in vain, for each of the four lengths
  generalize c.val.toNat = v at hvalid
  split
  next h => rfl
  split
  next h1 h =>
    have hfirst := readByte_lead (by omega) (by omega)
      (lead?_two (n := v / 64 % 32 + 192) (by omega))
    exact decodeFrom_step hfirst []
  split
  next h2 h1 h =>
    obtain ⟨low, high, hlead, hlow, hhigh⟩ := lead?_three (v := v) (by omega) (by omega)
    have hfirst := readByte_lead (by omega) (by omega) hlead
    have hsecond := readByte_goOn (p := ⟨v / 4096 % 16, 2, low, high⟩)
      (n := v / 64 % 64 + 128) (by omega) ⟨hlow, hhigh⟩ (by simp)
    exact (decodeFrom_step hfirst _).trans (decodeFrom_step hsecond [])
  next h2 h1 h =>
    obtain ⟨low, high, hlead, hlow, hhigh⟩ := lead?_four (v := v) (by omega)
    have hfirst := readByte_lead (by omega) (by omega) hlead
    have hsecond := readByte_goOn (p := ⟨v / 262144 % 8, 3, low, high⟩)
      (n := v / 4096 % 64 + 128) (by omega) ⟨hlow, hhigh⟩ (by simp)
    have hthird := readByte_goOn
      (p := ⟨v / 262144 % 8 * 64 + (v / 4096 % 64 + 128) % 64, 2, 0x80, 0xBF⟩)
      (n := v / 64 % 64 + 128) (by omega) (by simp; omega) (by simp)
    exact (decodeFrom_step hfirst _).trans
      ((decodeFrom_step hsecond _).trans (decodeFrom_step hthird []))

/-- What was encoded is decoded without loss. -/
theorem decodeLossy_encode (cs : List Char) : decodeLossy (encode cs) = cs := by
  rw [decodeLossy, decodeFrom_encode, List.map_map]
  exact List.map_id cs

/-- **A text whose last byte is cut off is read without its last character**, which leaves a
replacement character if it has more than one byte. -/
theorem decodeLossy_dropLast (cs : List Char) : decodeLossy (encode cs).dropLast = clipped cs := by
  by_cases hne : cs = []
  · rw [hne]
    rfl
  obtain ⟨init, c, rfl⟩ := (List.eq_nil_or_concat' cs).resolve_left hne
  have hbytes : encode (init ++ [c]) = encode init ++ String.utf8EncodeChar c := by
    rw [encode_append, encode_cons, encode_nil, List.append_nil]
  have hchar : String.utf8EncodeChar c ≠ [] := by
    refine List.ne_nil_of_length_pos ?_
    rw [String.length_utf8EncodeChar]
    exact c.utf8Size_pos
  rw [hbytes, List.dropLast_append_of_ne_nil hchar, decodeLossy, decodeFrom_encode_append,
    decodeFrom_dropLast_utf8EncodeChar, clipped, List.getLast?_concat, List.dropLast_concat,
    List.map_append, List.map_map]
  show List.map id init ++ _ = init ++ _
  rw [List.map_id]
  split <;> rfl

end Text

end WitnessReplay
