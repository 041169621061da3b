import Mathlib.Data.List.TakeWhile
import Mathlib.Logic.Basic
import WitnessReplay.Replay.Assumption

/-!
# The texts of numbers

Which texts are literals of numbers, told by their parts: digits with the suffixes of an integer,
hexadecimal digits with them, and digits with a point, an exponent or both, with one suffix of a
floating literal. The recognizer cuts a text at marks and takes suffixes off its end; it accepts
exactly these texts (`isNumber_iff`).

All letters of a number may stand in either case, so the grammar is one of texts in lower case.
-/

namespace WitnessReplay

open Text

/-! ### Lower case -/

theorem isAlpha_of_isUpper {c : Char} (h : c.isUpper = true) : c.isAlpha = true := by
  unfold Char.isAlpha
  rw [h, Bool.true_or]

theorem isAlpha_of_isLower {c : Char} (h : c.isLower = true) : c.isAlpha = true := by
  unfold Char.isAlpha
  rw [h, Bool.or_true]

theorem isAlpha_of_isDigit {c : Char} (h : c.isDigit = true) : c.isAlpha = false := by
  unfold Char.isAlpha Char.isUpper Char.isLower
  simp only [Char.isDigit, Bool.and_eq_true, Bool.or_eq_false_iff, Bool.and_eq_false_iff,
    decide_eq_true_eq, decide_eq_false_iff_not, ge_iff_le, UInt32.le_iff_toNat_le] at h ⊢
  simp at h ⊢
  omega

/-- In lower case a character stays, or it was a letter and is the one 32 behind it. -/
theorem toLower_cases (c : Char) : c.toLower = c ∨
    c.isAlpha = true ∧ c.toLower.isAlpha = true ∧ c.toLower.toNat = c.toNat + 32 := by
  by_cases h : c.isUpper = true
  · refine .inr ⟨isAlpha_of_isUpper h, ?_⟩
    unfold Char.isUpper at h
    unfold Char.isAlpha Char.isUpper Char.isLower Char.toLower
    simp only [UInt32.le_iff_toNat_le, Bool.and_eq_true, Bool.or_eq_true, decide_eq_true_eq,
      ge_iff_le, Char.toNat] at h ⊢
    rw [dif_pos (by simpa using h)]
    simp [UInt32.toNat_add] at h ⊢
    omega
  · refine .inl ?_
    unfold Char.isUpper at h
    unfold Char.toLower
    simp only [UInt32.le_iff_toNat_le, decide_eq_true_eq, ge_iff_le] at h ⊢
    rw [dif_neg (by simpa using h)]

/-- Only letters change in lower case, so what is no letter stays. -/
theorem eq_of_toLower_eq {c d : Char} (h : c.toLower = d) (hd : d.isAlpha = false) : c = d := by
  rcases toLower_cases c with hc | ⟨-, hc, -⟩
  · rw [← h, hc]
  · rw [h, hd] at hc
    cases hc

/-- What becomes a digit in lower case is one. -/
theorem isDigit_of_toLower {c : Char} (h : c.toLower.isDigit = true) : c.isDigit = true := by
  rwa [eq_of_toLower_eq rfl (isAlpha_of_isDigit h)]

/-! ### The first place of a mark -/

namespace Text.Pattern

variable {c : Char} {before behind cs : List Char}

/-- A text is cut at a mark if the first character of the mark does not stand before it. -/
theorem cut_append (mark : List Char) (h : c ∉ before) :
    cut (c :: mark) (before ++ (c :: mark) ++ behind) = some (before, behind) := by
  induction before with
  | nil =>
    have hprefix : (c :: mark).isPrefixOf (c :: mark ++ behind) = true :=
      List.isPrefixOf_iff_prefix.2 (List.prefix_append ..)
    rw [List.nil_append, List.cons_append, cut, ← List.cons_append, if_pos hprefix, List.drop_left]
  | cons d before ih =>
    have hne := List.ne_of_not_mem_cons h
    have hprefix : ¬ (c :: mark).isPrefixOf (d :: (before ++ (c :: mark) ++ behind)) = true := by
      rw [List.isPrefixOf_cons_cons, Bool.and_eq_true, beq_iff_eq]
      exact fun hboth => hne hboth.1
    rw [List.cons_append, List.cons_append, cut, if_neg hprefix, ih (List.not_mem_of_not_mem_cons h)]
    rfl

/-- A text is not cut at a mark of which it lacks the first character. -/
theorem cut_eq_none (mark : List Char) (h : c ∉ cs) : cut (c :: mark) cs = none := by
  induction cs with
  | nil => rfl
  | cons d cs ih =>
    have hne := List.ne_of_not_mem_cons h
    have hprefix : ¬ (c :: mark).isPrefixOf (d :: cs) = true := by
      rw [List.isPrefixOf_cons_cons, Bool.and_eq_true, beq_iff_eq]
      exact fun hboth => hne hboth.1
    rw [cut, if_neg hprefix, ih (List.not_mem_of_not_mem_cons h)]
    rfl

end Text.Pattern

namespace Assumption

open Text.Pattern

/-! ### The grammar -/

/-- Digits, at least one. -/
def Digits (cs : List Char) : Prop :=
  cs ≠ [] ∧ ∀ c ∈ cs, c.isDigit = true

/-- Digits with a point before, between or behind them. -/
def Pointed (cs : List Char) : Prop :=
  ∃ whole fraction, cs = whole ++ '.' :: fraction ∧ whole ++ fraction ≠ [] ∧
    ∀ c ∈ whole ++ fraction, c.isDigit = true

/-- What stands behind the mark of an exponent: a sign perhaps, and digits. -/
def Exponent (cs : List Char) : Prop :=
  ∃ sign digits, sign ∈ [[], ['+'], ['-']] ∧ Digits digits ∧ cs = sign ++ digits

/-- A floating literal without suffix: it has a point or an exponent. -/
inductive Floating : List Char → Prop
  | pointed {cs : List Char} (h : Pointed cs) : Floating cs
  | scientific {mantissa exponent : List Char} (hm : Digits mantissa ∨ Pointed mantissa)
      (he : Exponent exponent) : Floating (mantissa ++ 'e' :: exponent)

/-- The suffixes that an integer may have, in any number and order. -/
def IntegerSuffix (cs : List Char) : Prop :=
  ∀ c ∈ cs, c = 'u' ∨ c = 'l'

/-- The one suffix that a floating literal may have. -/
def FloatSuffix (cs : List Char) : Prop :=
  cs ∈ [[], ['f'], ['l']]

/-- A literal of a number in lower case. -/
inductive LowerNumber : List Char → Prop
  | decimal {digits suffix : List Char} (hd : Digits digits) (hs : IntegerSuffix suffix) :
      LowerNumber (digits ++ suffix)
  | hexadecimal {digits suffix : List Char} (hne : digits ≠ [])
      (hd : ∀ c ∈ digits, isLowerHexDigit c = true) (hs : IntegerSuffix suffix) :
      LowerNumber ('0' :: 'x' :: (digits ++ suffix))
  | floating {body suffix : List Char} (hb : Floating body) (hs : FloatSuffix suffix) :
      LowerNumber (body ++ suffix)

/-- A literal of a number, with its letters in either case. -/
def NumberText (cs : List Char) : Prop :=
  LowerNumber (cs.map Char.toLower)

/-! ### The parts of a number -/

/-- The test for digits finds texts of digits that are not empty. -/
theorem isDigits_iff {cs : List Char} : isDigits cs = true ↔ Digits cs := by
  simp [isDigits, Digits]

/-- A text of digits has nothing else in it. -/
theorem Digits.not_mem {cs : List Char} (h : Digits cs) {c : Char} (hc : c.isDigit = false) :
    c ∉ cs := by
  intro hmem
  rw [h.2 c hmem] at hc
  cases hc

/-- A decimal has digits and a point in it. -/
theorem Pointed.mem_cases {cs : List Char} (h : Pointed cs) {c : Char} (hc : c ∈ cs) :
    c.isDigit = true ∨ c = '.' := by
  obtain ⟨whole, fraction, rfl, -, hdigits⟩ := h
  simp only [List.mem_append, List.mem_cons] at hc hdigits
  rcases hc with hc | rfl | hc
  · exact .inl (hdigits c (.inl hc))
  · exact .inr rfl
  · exact .inl (hdigits c (.inr hc))

/-- The test for mantissas finds digits and decimals. -/
theorem isMantissa_iff {cs : List Char} : isMantissa cs = true ↔ Digits cs ∨ Pointed cs := by
  constructor
  · intro h
    rw [isMantissa] at h
    split at h
    next whole fraction hcut =>
      have hcs := cut_eq hcut
      simp only [Bool.and_eq_true, Bool.or_eq_true, Bool.not_eq_true', List.isEmpty_eq_false_iff,
        List.all_eq_true] at h
      obtain ⟨⟨hne, hwhole⟩, hfraction⟩ := h
      refine .inr ⟨whole, fraction, by simpa using hcs, ?_, ?_⟩
      · simpa only [ne_eq, List.append_eq_nil_iff, not_and_or] using hne
      · exact fun c hc => (List.mem_append.1 hc).elim (hwhole c) (hfraction c)
    next => exact .inl (isDigits_iff.1 h)
  · rintro (h | ⟨whole, fraction, rfl, hne, hdigits⟩)
    · rw [isMantissa, cut_eq_none [] (h.not_mem (by decide))]
      exact isDigits_iff.2 h
    · have hwhole : ∀ c ∈ whole, c.isDigit = true := fun c hc =>
        hdigits c (List.mem_append_left _ hc)
      -- the text is cut at its only point, since none of the digits is one
      have hpoint : '.' ∉ whole := by
        intro hmem
        exact absurd (hwhole _ hmem) (by decide)
      rw [isMantissa, List.append_cons, cut_append [] hpoint]
      simp only [Bool.and_eq_true, Bool.or_eq_true, Bool.not_eq_true', List.isEmpty_eq_false_iff,
        List.all_eq_true]
      refine ⟨⟨?_, hwhole⟩, fun c hc => hdigits c (List.mem_append_right _ hc)⟩
      simpa only [ne_eq, List.append_eq_nil_iff, not_and_or] using hne

/-- The test for exponents finds digits with a sign or without. -/
theorem isExponent_iff {cs : List Char} : isExponent cs = true ↔ Exponent cs := by
  constructor
  · intro h
    unfold isExponent at h
    split at h
    next rest => exact ⟨['+'], rest, by simp, isDigits_iff.1 h, rfl⟩
    next rest => exact ⟨['-'], rest, by simp, isDigits_iff.1 h, rfl⟩
    next => exact ⟨[], _, by simp, isDigits_iff.1 h, rfl⟩
  · rintro ⟨sign, digits, hsign, hdigits, rfl⟩
    have hd := isDigits_iff.2 hdigits
    simp only [List.mem_cons, List.not_mem_nil, or_false] at hsign
    rcases hsign with rfl | rfl | rfl
    · obtain ⟨c, rest, rfl⟩ := List.exists_cons_of_ne_nil hdigits.1
      rw [List.nil_append, isExponent.eq_def]
      split
      next hcs => cases hcs; exact absurd (hdigits.2 '+' (by simp)) (by decide)
      next hcs => cases hcs; exact absurd (hdigits.2 '-' (by simp)) (by decide)
      next => exact hd
    · exact hd
    · exact hd

/-- The test for floating numbers finds mantissas with a point, an exponent, or both. -/
theorem isFloat_iff {cs : List Char} : isFloat cs = true ↔ Floating cs := by
  have hmark {mantissa : List Char} (h : Digits mantissa ∨ Pointed mantissa) : 'e' ∉ mantissa := by
    intro hmem
    rcases h with h | h
    · exact h.not_mem (by decide) hmem
    · exact absurd (h.mem_cases hmem) (by decide)
  constructor
  · intro h
    rw [isFloat] at h
    split at h
    next mantissa exponent hcut =>
      obtain ⟨hmantissa, hexponent⟩ := Bool.and_eq_true_iff.1 h
      have hcs := cut_eq hcut
      rw [List.append_assoc, List.singleton_append] at hcs
      rw [hcs]
      exact .scientific (isMantissa_iff.1 hmantissa) (isExponent_iff.1 hexponent)
    next =>
      obtain ⟨hmantissa, hpoint⟩ := Bool.and_eq_true_iff.1 h
      -- without an exponent the point is asked for
      rcases isMantissa_iff.1 hmantissa with hdigits | hpointed
      · exact absurd (List.contains_iff_mem.1 hpoint) (hdigits.not_mem (by decide))
      · exact .pointed hpointed
  · rintro (h | ⟨hm, he⟩)
    · rw [isFloat, cut_eq_none [] (hmark (.inr h))]
      obtain ⟨whole, fraction, rfl, -, -⟩ := id h
      exact Bool.and_eq_true_iff.2 ⟨isMantissa_iff.2 (.inr h), List.contains_iff_mem.2 (by simp)⟩
    · rw [isFloat, List.append_cons, cut_append [] (hmark hm)]
      exact Bool.and_eq_true_iff.2 ⟨isMantissa_iff.2 hm, isExponent_iff.2 he⟩

/-! ### Suffixes -/

/-- What is dropped at the end of an integer is a suffix of integers. -/
theorem exists_dropIntegerSuffix (cs : List Char) :
    ∃ suffix, cs = dropIntegerSuffix cs ++ suffix ∧ IntegerSuffix suffix := by
  refine ⟨(cs.reverse.takeWhile fun c => c == 'u' || c == 'l').reverse, ?_, fun c hc => ?_⟩
  · rw [dropIntegerSuffix, ← List.reverse_append, List.takeWhile_append_dropWhile,
      List.reverse_reverse]
  · simpa using List.mem_takeWhile_imp (List.mem_reverse.1 hc)

/-- The suffixes of an integer are taken off up to its last digit. -/
theorem dropIntegerSuffix_append {digits suffix : List Char}
    (hd : ∀ c ∈ digits, c ≠ 'u' ∧ c ≠ 'l') (hs : IntegerSuffix suffix) :
    dropIntegerSuffix (digits ++ suffix) = digits := by
  have hsuffix : ∀ c ∈ suffix.reverse, (c == 'u' || c == 'l') = true := by
    intro c hc
    simpa using hs c (List.mem_reverse.1 hc)
  rw [dropIntegerSuffix, List.reverse_append, List.dropWhile_append_of_pos hsuffix]
  cases hrev : digits.reverse with
  | nil => simpa using hrev.symm
  | cons c rest =>
    have hc := hd c (List.mem_reverse.1 (hrev ▸ List.mem_cons_self))
    rw [List.dropWhile_cons_of_neg (by simpa using hc), ← hrev, List.reverse_reverse]

/-- What is dropped at the end of a floating number is a suffix of these. -/
theorem exists_dropFloatSuffix (cs : List Char) :
    ∃ suffix, cs = dropFloatSuffix cs ++ suffix ∧ FloatSuffix suffix := by
  rw [dropFloatSuffix]
  split
  next h =>
    obtain ⟨c, hlast, hc⟩ : ∃ c, cs.getLast? = some c ∧ (c = 'f' ∨ c = 'l') := by
      rcases h with h | h
      · exact ⟨_, h, .inl rfl⟩
      · exact ⟨_, h, .inr rfl⟩
    obtain ⟨init, rfl⟩ := List.getLast?_eq_some_iff.1 hlast
    refine ⟨[c], by simp, ?_⟩
    rcases hc with rfl | rfl <;> simp [FloatSuffix]
  next => exact ⟨[], by simp, by simp [FloatSuffix]⟩

/-- A floating number ends in a digit or a point. -/
theorem Floating.last {cs : List Char} (h : Floating cs) :
    ∃ c, cs.getLast? = some c ∧ (c.isDigit = true ∨ c = '.') := by
  cases h with
  | pointed h =>
    have hne : cs ≠ [] := by
      obtain ⟨whole, fraction, rfl, -, -⟩ := h
      simp
    exact ⟨_, List.getLast?_eq_some_getLast hne, h.mem_cases (List.getLast_mem hne)⟩
  | scientific hm he =>
    obtain ⟨sign, digits, -, hdigits, rfl⟩ := he
    refine ⟨digits.getLast hdigits.1, ?_, .inl (hdigits.2 _ (List.getLast_mem _))⟩
    rw [List.append_cons, ← List.append_assoc, List.getLast?_append,
      List.getLast?_eq_some_getLast hdigits.1, Option.some_or]

/-- The suffix of a floating literal is taken off, and nothing of its digits. -/
theorem dropFloatSuffix_append {body suffix : List Char} (hb : Floating body)
    (hs : FloatSuffix suffix) : dropFloatSuffix (body ++ suffix) = body := by
  simp only [FloatSuffix, List.mem_cons, List.not_mem_nil, or_false] at hs
  rcases hs with rfl | rfl | rfl
  · obtain ⟨c, hlast, hc⟩ := hb.last
    have hstays : ¬ (body.getLast? = some 'f' ∨ body.getLast? = some 'l') := by
      rw [hlast]
      rintro (heq | heq) <;> injection heq with heq <;> subst heq <;> exact absurd hc (by decide)
    rw [List.append_nil, dropFloatSuffix, if_neg hstays]
  · rw [dropFloatSuffix, if_pos (.inl (by simp)), List.dropLast_concat]
  · rw [dropFloatSuffix, if_pos (.inr (by simp)), List.dropLast_concat]

/-! ### The recognizer -/

/-- The characters of numbers that are not hexadecimal. -/
theorem Floating.mem_cases {cs : List Char} (h : Floating cs) {c : Char} (hc : c ∈ cs) :
    c.isDigit = true ∨ c ∈ ['.', 'e', '+', '-'] := by
  have hmantissa {mantissa : List Char} (hm : Digits mantissa ∨ Pointed mantissa)
      (hc : c ∈ mantissa) : c.isDigit = true ∨ c ∈ ['.', 'e', '+', '-'] := by
    rcases hm with hm | hm
    · exact .inl (hm.2 c hc)
    · exact (hm.mem_cases hc).imp_right fun heq => by simp [heq]
  cases h with
  | pointed h => exact hmantissa (.inr h) hc
  | scientific hm he =>
    obtain ⟨sign, digits, hsign, hdigits, rfl⟩ := he
    rcases List.mem_append.1 hc with hc | hc
    · exact hmantissa hm hc
    rcases List.mem_cons.1 hc with rfl | hc
    · exact .inr (by simp)
    rcases List.mem_append.1 hc with hc | hc
    · simp only [List.mem_cons, List.not_mem_nil, or_false] at hsign
      rcases hsign with rfl | rfl | rfl
      · cases hc
      · exact .inr (by simp_all)
      · exact .inr (by simp_all)
    · exact .inl (hdigits.2 c hc)

/-- A text without an `x` is no hexadecimal number. -/
theorem isLowerNumber_of_not_mem {cs : List Char} (h : 'x' ∉ cs) :
    isLowerNumber cs = (isDigits (dropIntegerSuffix cs) || isFloat (dropFloatSuffix cs)) := by
  unfold isLowerNumber
  split
  next => simp at h
  next => rfl

/-- **The test for numbers in lower case finds exactly the texts of the grammar.** It drops a suffix
and looks at what is left. To the left it is shown that what was dropped is a suffix; to the right,
that a suffix is dropped as a whole, since no number of its kind ends in a letter of it. -/
theorem isLowerNumber_iff {cs : List Char} : isLowerNumber cs = true ↔ LowerNumber cs := by
  constructor
  · intro h
    unfold isLowerNumber at h
    split at h
    next hex =>
      simp only [Bool.and_eq_true, Bool.not_eq_true', List.isEmpty_eq_false_iff,
        List.all_eq_true] at h
      obtain ⟨suffix, hsuffix, hs⟩ := exists_dropIntegerSuffix hex
      rw [hsuffix]
      exact .hexadecimal h.1 h.2 hs
    next =>
      -- each test says which suffix was dropped before it
      rcases Bool.or_eq_true_iff.1 h with h | h
      · obtain ⟨suffix, hsuffix, hs⟩ := exists_dropIntegerSuffix cs
        rw [hsuffix]
        exact .decimal (isDigits_iff.1 h) hs
      · obtain ⟨suffix, hsuffix, hs⟩ := exists_dropFloatSuffix cs
        rw [hsuffix]
        exact .floating (isFloat_iff.1 h) hs
  · rintro (⟨hd, hs⟩ | ⟨hne, hd, hs⟩ | ⟨hb, hs⟩)
    next digits suffix =>
      -- no decimal has an `x`, and none of its digits is dropped with the suffix
      have hx : 'x' ∉ digits ++ suffix := by
        rw [List.mem_append]
        rintro (hmem | hmem)
        · exact hd.not_mem (by decide) hmem
        · exact absurd (hs _ hmem) (by decide)
      have hdigits : ∀ c ∈ digits, c ≠ 'u' ∧ c ≠ 'l' := by
        intro c hc
        constructor <;> rintro rfl <;> exact absurd (hd.2 _ hc) (by decide)
      rw [isLowerNumber_of_not_mem hx, dropIntegerSuffix_append hdigits hs, isDigits_iff.2 hd,
        Bool.true_or]
    next digits suffix =>
      have hdigits : ∀ c ∈ digits, c ≠ 'u' ∧ c ≠ 'l' := by
        intro c hc
        constructor <;> rintro rfl <;> exact absurd (hd _ hc) (by decide)
      rw [isLowerNumber, dropIntegerSuffix_append hdigits hs]
      simpa using ⟨hne, hd⟩
    next body suffix =>
      have hx : 'x' ∉ body ++ suffix := by
        rw [List.mem_append]
        rintro (hmem | hmem)
        · exact absurd (hb.mem_cases hmem) (by decide)
        · simp only [FloatSuffix, List.mem_cons, List.not_mem_nil, or_false] at hs
          rcases hs with rfl | rfl | rfl <;> simp at hmem
      rw [isLowerNumber_of_not_mem hx, dropFloatSuffix_append hb hs, isFloat_iff.2 hb, Bool.or_true]

/-- **The recognizer accepts exactly the literals of numbers.** -/
theorem isNumber_iff {cs : List Char} : isNumber cs = true ↔ NumberText cs :=
  isLowerNumber_iff

/-! ### The characters of a number -/

/-- Whether a character may stand in a number or be its sign. -/
def isNumberChar (c : Char) : Bool :=
  c.isAlphanum || c == '.' || c == '+' || c == '-'

theorem isNumberChar_of_isDigit {c : Char} (h : c.isDigit = true) : isNumberChar c = true := by
  simp [isNumberChar, Char.isAlphanum, h]

/-- A hexadecimal digit is a digit or a letter. -/
theorem isAlpha_of_isLowerHexDigit {c : Char} (h : isLowerHexDigit c = true) :
    c.isDigit = true ∨ c.isAlpha = true := by
  simp only [isLowerHexDigit, Bool.or_eq_true, Bool.and_eq_true, decide_eq_true_eq] at h
  refine h.imp_right fun ⟨ha, hf⟩ => isAlpha_of_isLower ?_
  simp only [Char.le_def, UInt32.le_iff_toNat_le] at ha hf
  unfold Char.isLower
  simp only [Bool.and_eq_true, decide_eq_true_eq, ge_iff_le, UInt32.le_iff_toNat_le]
  exact ⟨ha, hf.trans (by decide)⟩

/-- A number in lower case is made of characters of numbers. -/
theorem LowerNumber.isNumberChar_of_mem {cs : List Char} (h : LowerNumber cs) {c : Char}
    (hc : c ∈ cs) : isNumberChar c = true := by
  have hsuffix {suffix : List Char} (hs : IntegerSuffix suffix) (hc : c ∈ suffix) :
      isNumberChar c = true := by
    rcases hs c hc with rfl | rfl <;> decide
  -- digits and suffixes are known; what is left are the mark of a base, the point and the exponent
  cases h with
  | decimal hd hs =>
    rcases List.mem_append.1 hc with hc | hc
    · exact isNumberChar_of_isDigit (hd.2 c hc)
    · exact hsuffix hs hc
  | hexadecimal _ hd hs =>
    rcases List.mem_cons.1 hc with rfl | hc
    · decide
    rcases List.mem_cons.1 hc with rfl | hc
    · decide
    rcases List.mem_append.1 hc with hc | hc
    · rcases isAlpha_of_isLowerHexDigit (hd c hc) with hc | hc <;>
        simp [isNumberChar, Char.isAlphanum, hc]
    · exact hsuffix hs hc
  | floating hb hs =>
    rcases List.mem_append.1 hc with hc | hc
    · rcases hb.mem_cases hc with hc | hc
      · exact isNumberChar_of_isDigit hc
      · have hmarks : ['.', 'e', '+', '-'].all isNumberChar = true := by decide
        exact List.all_eq_true.1 hmarks c hc
    · simp only [FloatSuffix, List.mem_cons, List.not_mem_nil, or_false] at hs
      rcases hs with rfl | rfl | rfl
      · cases hc
      · rw [List.mem_singleton.1 hc]; decide
      · rw [List.mem_singleton.1 hc]; decide

/-- A number begins with a digit or a point. -/
theorem LowerNumber.exists_cons {cs : List Char} (h : LowerNumber cs) :
    ∃ c rest, cs = c :: rest ∧ (c.isDigit = true ∨ c = '.') := by
  have hdigits {digits : List Char} (hd : Digits digits) (more : List Char) :
      ∃ c rest, digits ++ more = c :: rest ∧ (c.isDigit = true ∨ c = '.') := by
    obtain ⟨c, rest, rfl⟩ := List.exists_cons_of_ne_nil hd.1
    exact ⟨c, rest ++ more, rfl, .inl (hd.2 c List.mem_cons_self)⟩
  have hpointed {mantissa : List Char} (hp : Pointed mantissa) (more : List Char) :
      ∃ c rest, mantissa ++ more = c :: rest ∧ (c.isDigit = true ∨ c = '.') := by
    have hne : mantissa ≠ [] := by
      obtain ⟨whole, fraction, rfl, -, -⟩ := hp
      simp
    obtain ⟨c, rest, rfl⟩ := List.exists_cons_of_ne_nil hne
    exact ⟨c, rest ++ more, rfl, hp.mem_cases List.mem_cons_self⟩
  cases h with
  | decimal hd => exact hdigits hd _
  | hexadecimal => exact ⟨'0', _, rfl, .inl rfl⟩
  | floating hb hs =>
    cases hb with
    | pointed hp => exact hpointed hp _
    | scientific hm he =>
      rw [List.append_assoc]
      exact hm.elim (hdigits · _) (hpointed · _)

theorem NumberText.isNumberChar_of_mem {cs : List Char} (h : NumberText cs) {c : Char}
    (hc : c ∈ cs) : isNumberChar c = true := by
  have hlower := LowerNumber.isNumberChar_of_mem h (List.mem_map_of_mem hc)
  rcases toLower_cases c with heq | ⟨halpha, -⟩
  · rwa [heq] at hlower
  · simp [isNumberChar, Char.isAlphanum, halpha]

/-- A number begins with a digit or a point. -/
theorem NumberText.exists_cons {cs : List Char} (h : NumberText cs) :
    ∃ c rest, cs = c :: rest ∧ (c.isDigit = true ∨ c = '.') := by
  obtain ⟨c', rest', hcs, hc⟩ := LowerNumber.exists_cons h
  obtain ⟨c, rest, rfl, rfl, -⟩ := List.map_eq_cons_iff.1 hcs
  exact ⟨c, rest, rfl, hc.imp isDigit_of_toLower (eq_of_toLower_eq · rfl)⟩

end Assumption

end WitnessReplay
