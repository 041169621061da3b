import WitnessReplay.Proofs.Source.Gap

/-!
# Lexemes and what stands behind them

How far a lexeme reaches is decided by the text behind it: `<` goes on if `=` follows, a word goes
on if a letter follows. `Lexes` says of a text that it is a lexeme of its kind before some other
text, as a condition on the two for each sort of lexeme (`lexes_of_lexeme`, `lexeme_of_lexes`).

New text is put behind old lexemes when a program is printed and when parts of it are blanked, so
the question is when that changes nothing. The answer is `Lexes.change`: a text may be cut off
anywhere behind a lexeme and go on with a character that is in no punctuator of several characters,
if the character does not join the lexeme where it comes right behind it. The *breakers* join
nothing, and the printer puts nothing else behind what it copies.

A directive reaches to the end of its line instead, and `splitDirective_change` says so for a text
that goes on with a line end.
-/

namespace WitnessReplay

/-- Whether a character ends every word, number and punctuator before it. -/
def isBreaker (c : Char) : Bool :=
  c == ' ' || c == '\n' || c == '(' || c == ')' || c == ',' || c == ';'

/-- Whether a text goes on with a breaker. -/
def Breaks (cs : List Char) : Prop :=
  ∃ c rest, cs = c :: rest ∧ isBreaker c = true

theorem isBreaker_cases {c : Char} (h : isBreaker c = true) :
    c = ' ' ∨ c = '\n' ∨ c = '(' ∨ c = ')' ∨ c = ',' ∨ c = ';' := by
  simpa [isBreaker, or_assoc] using h

/-- No character that breaks lexemes is part of a word. -/
theorem isWordPart_of_isBreaker (c : Char) (h : isBreaker c = true) : isWordPart c = false := by
  rcases isBreaker_cases h with rfl | rfl | rfl | rfl | rfl | rfl <;> decide

/-! ### Words and numbers -/

/-- A stretch of characters that pass a test ends where it ended if what is behind it still fails
the test. -/
theorem takeWhile_eq_self {p : Char → Bool} {cs w : List Char}
    (hcs : ∀ c ∈ cs, p c = true) (hw : w.head?.any p = false) :
    (cs ++ w).takeWhile p = cs ∧ (cs ++ w).dropWhile p = w := by
  rw [List.takeWhile_append_of_pos hcs, List.dropWhile_append_of_pos hcs]
  cases w with
  | nil => simp
  | cons d w =>
    have hd : p d = false := hw
    rw [List.takeWhile_cons_of_neg (by simp [hd]), List.dropWhile_cons_of_neg (by simp [hd])]
    simp

/-- What is left when characters were dropped does not begin with one of them. -/
theorem dropWhile_head? {p : Char → Bool} (cs : List Char) :
    (cs.dropWhile p).head?.any p = false := by
  induction cs with
  | nil => rfl
  | cons d cs ih =>
    by_cases hd : p d = true
    · rw [List.dropWhile_cons_of_pos hd]
      exact ih
    · rw [List.dropWhile_cons_of_neg hd]
      simpa using hd

/-- Whether a number goes on with a character, where `last` is the character before. -/
def numberGoesOn (last c : Char) : Bool :=
  isWordPart c || c == '.' ||
    ((c == '+' || c == '-') && (last == 'e' || last == 'E' || last == 'p' || last == 'P'))

/-- How a number goes on is decided character by character. -/
theorem splitNumber_cons (last c : Char) (rest : List Char) :
    splitNumber last (c :: rest) =
      if numberGoesOn last c = true then (c :: (splitNumber c rest).1, (splitNumber c rest).2)
      else ([], c :: rest) := by
  rw [splitNumber]
  rfl

/-- Parts of words are parts of numbers. -/
theorem numberGoesOn_of_isWordPart {c : Char} (h : isWordPart c = true) (last : Char) :
    numberGoesOn last c = true := by
  rw [numberGoesOn, h, Bool.true_or, Bool.true_or]

/-- All characters of a number let it go on. -/
theorem mem_splitNumber {last d : Char} {cs : List Char} (h : d ∈ (splitNumber last cs).1) :
    ∃ last, numberGoesOn last d = true := by
  induction cs generalizing last with
  | nil => cases h
  | cons c cs ih =>
    rw [splitNumber_cons] at h
    split at h
    next hc =>
      rcases List.mem_cons.1 h with rfl | h
      · exact ⟨last, hc⟩
      · exact ih h
    next => cases h

/-- Behind a number comes no part of a word. -/
theorem splitNumber_head? (last : Char) (cs : List Char) :
    (splitNumber last cs).2.head?.any isWordPart = false := by
  induction cs generalizing last with
  | nil => rfl
  | cons c cs ih =>
    rw [splitNumber_cons]
    split
    next => exact ih c
    next hc =>
      rw [numberGoesOn, Bool.or_assoc, Bool.or_eq_true, not_or] at hc
      simpa using hc.1

/-- A number ends where it ended if what is behind it still does not go on with it. -/
theorem splitNumber_change {last : Char} {cs w v : List Char}
    (h : splitNumber last (cs ++ w) = (cs, w))
    (hv : ∀ last, w.head?.any (numberGoesOn last) = false → v.head?.any (numberGoesOn last) = false) :
    splitNumber last (cs ++ v) = (cs, v) := by
  induction cs generalizing last with
  | nil =>
    -- the number ended here, so the text behind it did not go on with it
    have hstop : w.head?.any (numberGoesOn last) = false := by
      cases w with
      | nil => rfl
      | cons d w =>
        rw [List.nil_append, splitNumber_cons] at h
        split at h
        next => simp at h
        next hd => simpa using hd
    have hnew := hv last hstop
    cases v with
    | nil => simp [splitNumber]
    | cons d v =>
      have hd : numberGoesOn last d = false := hnew
      rw [List.nil_append, splitNumber_cons, if_neg (by simp [hd])]
  | cons c cs ih =>
    rw [List.cons_append, splitNumber_cons] at h ⊢
    split at h
    next hc =>
      rw [if_pos hc]
      have hrest : splitNumber c (cs ++ w) = (cs, w) := by
        have h1 := congrArg Prod.fst h
        have h2 := congrArg Prod.snd h
        exact Prod.ext (by simpa using h1) h2
      rw [ih hrest]
    next => simp at h

/-! ### Literals -/

/-- A literal has at least its closing quote. -/
theorem splitLiteral_ne_nil {quote : Char} {cs body after : List Char}
    (h : splitLiteral quote cs = some (body, after)) : body ≠ [] := by
  fun_induction splitLiteral quote cs with
  | case1 => cases h
  | case2 => cases h; simp
  | case3 => cases h
  | case4 => cases h
  | case5 =>
    obtain ⟨p, -, heq⟩ := Option.map_eq_some_iff.1 h
    cases heq
    simp
  | case6 => cases h; simp
  | case7 =>
    obtain ⟨p, -, heq⟩ := Option.map_eq_some_iff.1 h
    cases heq
    simp

/-- A literal ends in its closing quote. -/
theorem getLast?_of_splitLiteral {quote : Char} {cs body after : List Char}
    (h : splitLiteral quote cs = some (body, after)) : body.getLast? = some quote := by
  fun_induction splitLiteral quote cs generalizing body with
  | case1 => cases h
  | case2 => cases h; rfl
  | case3 => cases h
  | case4 => cases h
  | case5 b rest _ ih =>
    obtain ⟨⟨body', after'⟩, hp, heq⟩ := Option.map_eq_some_iff.1 h
    cases heq
    have hne := splitLiteral_ne_nil hp
    rw [List.getLast?_cons_of_ne_nil (by simp), List.getLast?_cons_of_ne_nil hne, ih hp]
  | case6 => cases h; rfl
  | case7 a b rest _ _ _ ih =>
    obtain ⟨⟨body', after'⟩, hp, heq⟩ := Option.map_eq_some_iff.1 h
    cases heq
    rw [List.getLast?_cons_of_ne_nil (splitLiteral_ne_nil hp), ih hp]

/-- A closing quote ends the literal. -/
theorem splitLiteral_close {quote : Char} (hq : isQuote quote = true) (w : List Char) :
    splitLiteral quote (quote :: w) = some ([quote], w) := by
  have hquote : quote = '"' ∨ quote = '\'' := by simpa [isQuote] using hq
  cases w with
  | nil => rw [splitLiteral, if_pos rfl]
  | cons d w =>
    rw [splitLiteral, if_neg, if_neg, if_pos rfl]
    · rcases hquote with rfl | rfl <;> decide
    · rcases hquote with rfl | rfl <;> decide

/-- Where a literal closes does not depend on what stands behind it. -/
theorem splitLiteral_extend {quote : Char} {cs body after : List Char}
    (hq : isQuote quote = true) (h : splitLiteral quote cs = some (body, after))
    (more : List Char) : splitLiteral quote (body ++ more) = some (body, more) := by
  fun_induction splitLiteral quote cs generalizing body with
  | case1 => cases h
  | case2 => cases h; exact splitLiteral_close hq more
  | case3 => cases h
  | case4 => cases h
  | case5 b rest hn ih =>
    -- an escaped character is passed over, a quote too
    obtain ⟨⟨body', after'⟩, hp, heq⟩ := Option.map_eq_some_iff.1 h
    cases heq
    show splitLiteral quote ('\\' :: b :: (body' ++ more)) = _
    rw [splitLiteral, if_neg hn, if_pos rfl, ih hp]
    rfl
  | case6 => cases h; exact splitLiteral_close hq more
  | case7 a b rest hn hb hc ih =>
    obtain ⟨⟨body', after'⟩, hp, heq⟩ := Option.map_eq_some_iff.1 h
    cases heq
    have hrest := ih hp
    obtain ⟨tail, rfl⟩ := exists_tail_of_append (splitLiteral_ne_nil hp) (splitLiteral_append hp)
    show splitLiteral quote (a :: b :: (tail ++ more)) = _
    rw [splitLiteral, if_neg hn, if_neg hb, if_neg hc]
    show (splitLiteral quote ((b :: tail) ++ more)).map _ = _
    rw [hrest]
    rfl

/-! ### Punctuators -/

/-- No long punctuator has a breaking character in it. -/
theorem longPunctuators_not_breaker :
    ∀ p ∈ longPunctuators, ∀ c ∈ p.toList, isBreaker c = false := by
  have hall : (longPunctuators.all fun p => p.toList.all fun c => !isBreaker c) = true := by rfl
  intro p hp c hc
  have hp := List.all_eq_true.1 hall p hp
  simpa using List.all_eq_true.1 hp c hc

/-- A character is in no punctuator of several characters and opens no literal. -/
def Neutral (d : Char) : Prop :=
  (∀ p ∈ longPunctuators, d ∉ p.toList) ∧ isQuote d = false

instance (d : Char) : Decidable (Neutral d) :=
  inferInstanceAs (Decidable (_ ∧ _))

theorem Neutral.ne {c d : Char} (h : Neutral d) {p : String} (hp : p ∈ longPunctuators)
    (hc : c ∈ p.toList) : d ≠ c :=
  fun heq => h.1 p hp (heq ▸ hc)

/-- Breaking characters are neutral. -/
theorem neutral_of_isBreaker {d : Char} (h : isBreaker d = true) : Neutral d := by
  refine ⟨fun p hp hd => ?_, ?_⟩
  · have := longPunctuators_not_breaker p hp d hd
    rw [h] at this
    cases this
  · rcases isBreaker_cases h with rfl | rfl | rfl | rfl | rfl | rfl <;> decide

/-- A number goes on over a neutral character just if a word does. -/
theorem Neutral.numberGoesOn_eq {d : Char} (h : Neutral d) (last : Char) :
    numberGoesOn last d = isWordPart d := by
  have hpoint : d ≠ '.' := h.ne (p := "...") (by decide) (by decide)
  have hplus : d ≠ '+' := h.ne (p := "++") (by decide) (by decide)
  have hminus : d ≠ '-' := h.ne (p := "--") (by decide) (by decide)
  rw [numberGoesOn, beq_false_of_ne hpoint, beq_false_of_ne hplus, beq_false_of_ne hminus,
    Bool.or_false, Bool.or_false, Bool.false_and, Bool.or_false]

/-- A punctuator that a text begins with ends before the first character behind a stretch that is
not in it. -/
theorem isPrefixOf_change {p a w y : List Char} {d : Char} (hd : d ∉ p)
    (h : p.isPrefixOf (a ++ d :: w) = true) : p.isPrefixOf (a ++ y) = true := by
  rw [List.isPrefixOf_iff_prefix] at h ⊢
  rcases Nat.le_total p.length a.length with hle | hle
  · exact (List.prefix_of_prefix_length_le h (List.prefix_append a _) hle).trans
      (List.prefix_append a y)
  · obtain ⟨q, rfl⟩ := List.prefix_of_prefix_length_le (List.prefix_append a _) h hle
    rw [List.prefix_append_right_inj] at h ⊢
    cases q with
    | nil => exact List.nil_prefix
    | cons e q =>
      rw [List.cons_prefix_cons] at h
      exact absurd (by simp [h.1]) hd

/-- The first of a list that passes a test is the first that passes a stricter one, if it does. -/
theorem find?_of_imp {α : Type} {p q : α → Bool} {l : List α} {a : α} (h : l.find? p = some a)
    (ha : q a = true) (himp : ∀ b ∈ l, q b = true → p b = true) : l.find? q = some a := by
  induction l with
  | nil => cases h
  | cons b l ih =>
    by_cases hb : p b = true
    · rw [List.find?_cons_of_pos hb] at h
      cases h
      exact List.find?_cons_of_pos ha
    · rw [List.find?_cons_of_neg hb] at h
      rw [List.find?_cons_of_neg fun hq => hb (himp b (by simp) hq)]
      exact ih h fun c hc => himp c (List.mem_cons_of_mem _ hc)

/-- A punctuator stays as long as it is if a neutral character comes behind it. -/
theorem punctuatorLength_change {a x y w : List Char} {d : Char}
    (h : punctuatorLength (a ++ (x ++ y)) = a.length) (hd : Neutral d) :
    punctuatorLength (a ++ (x ++ d :: w)) = a.length := by
  have himp : ∀ p ∈ longPunctuators, p.toList.isPrefixOf (a ++ (x ++ d :: w)) = true →
      p.toList.isPrefixOf (a ++ (x ++ y)) = true := by
    intro p hp h
    rw [← List.append_assoc] at h ⊢
    exact isPrefixOf_change (hd.1 p hp) h
  unfold punctuatorLength at h ⊢
  -- the list is searched in order, and the new character lets no earlier entry in
  cases hf : longPunctuators.find? fun p => p.toList.isPrefixOf (a ++ (x ++ y)) with
  | none =>
    rw [hf] at h
    have hnone := List.find?_eq_none.1 hf
    rw [List.find?_eq_none.2 fun p hp h => hnone p hp (himp p hp h)]
    exact h
  | some p =>
    rw [hf] at h
    have hlen : p.length = a.length := h
    have hpre := List.find?_some hf
    have hpa : p.toList = a := by
      rw [List.isPrefixOf_iff_prefix] at hpre
      exact (List.prefix_of_prefix_length_le hpre (List.prefix_append a _)
        (by rw [String.length_toList]; omega)).eq_of_length
          (by rw [String.length_toList]; exact hlen)
    have hnew : p.toList.isPrefixOf (a ++ (x ++ d :: w)) = true := by
      rw [hpa, List.isPrefixOf_iff_prefix]
      exact List.prefix_append a _
    rw [find?_of_imp hf hnew himp]
    exact hlen

/-- A punctuator is a single character or stands in the table. -/
theorem punctuator_cases {c : Char} {cs after : List Char}
    (h : punctuatorLength (c :: cs ++ after) = (c :: cs).length) :
    cs = [] ∨ ∃ p ∈ longPunctuators, p.toList = c :: cs := by
  unfold punctuatorLength at h
  split at h
  next p hp =>
    refine .inr ⟨p, List.mem_of_find?_eq_some hp, ?_⟩
    have hpre := List.find?_some hp
    rw [List.isPrefixOf_iff_prefix] at hpre
    exact (List.prefix_of_prefix_length_le hpre (List.prefix_append ..)
      (by rw [String.length_toList]; omega)).eq_of_length (by rw [String.length_toList]; exact h)
  next =>
    rw [List.length_cons] at h
    exact .inl (List.eq_nil_of_length_eq_zero (by omega))

/-- No long punctuator has a part of a word in it. -/
theorem longPunctuators_not_wordPart :
    ∀ p ∈ longPunctuators, ∀ c ∈ p.toList, isWordPart c = false := by
  have hall : (longPunctuators.all fun p => p.toList.all fun c => !isWordPart c) = true := by rfl
  intro p hp c hc
  have hp := List.all_eq_true.1 hall p hp
  simpa using List.all_eq_true.1 hp c hc

/-! ### Lexemes of each sort -/

section Sorts

variable {fresh : Bool} {c : Char} {cs : List Char}

/-- A word goes on as long as there are parts of words. -/
theorem lexeme_word (hc : ¬ (c = '#' ∧ fresh = true)) (hw : isWordStart c = true)
    (hm : (isLiteralMark c && cs.head?.any isQuote) = false) :
    lexeme fresh c cs = .ok ⟨.word, c :: cs.takeWhile isWordPart, cs.dropWhile isWordPart⟩ := by
  rw [lexeme.eq_def, if_neg hc, if_pos hw]
  cases cs with
  | nil => rfl
  | cons d cs =>
    have hm' : (isLiteralMark c && isQuote d) = false := hm
    show (if (isLiteralMark c && isQuote d) = true then _ else _) = _
    rw [if_neg (by simp [hm'])]

/-- A mark and a quote open a literal. -/
theorem lexeme_marked {quote : Char} (hc : ¬ (c = '#' ∧ fresh = true)) (hw : isWordStart c = true)
    (hm : isLiteralMark c = true) (hq : isQuote quote = true) :
    lexeme fresh c (quote :: cs) = quotedLexeme [c, quote] quote cs := by
  rw [lexeme.eq_def, if_neg hc, if_pos hw]
  show (if (isLiteralMark c && isQuote quote) = true then _ else _) = _
  rw [if_pos (by simp [hm, hq])]

/-- A digit, or a point before one, begins a number. -/
theorem lexeme_number (hc : ¬ (c = '#' ∧ fresh = true)) (hw : ¬ isWordStart c = true)
    (hn : (c.isDigit || (c == '.' && cs.head?.any Char.isDigit)) = true) :
    lexeme fresh c cs = .ok ⟨.number, c :: (splitNumber c cs).1, (splitNumber c cs).2⟩ := by
  rw [lexeme.eq_def, if_neg hc, if_neg hw, if_pos hn]

theorem lexeme_quoted (hc : ¬ (c = '#' ∧ fresh = true)) (hw : ¬ isWordStart c = true)
    (hn : ¬ (c.isDigit || (c == '.' && cs.head?.any Char.isDigit)) = true)
    (hq : isQuote c = true) : lexeme fresh c cs = quotedLexeme [c] c cs := by
  rw [lexeme.eq_def, if_neg hc, if_neg hw, if_neg hn, if_pos hq]

/-- Whatever begins nothing else is a punctuator, of one character at least. -/
theorem lexeme_punctuator (hc : ¬ (c = '#' ∧ fresh = true)) (hw : ¬ isWordStart c = true)
    (hn : ¬ (c.isDigit || (c == '.' && cs.head?.any Char.isDigit)) = true)
    (hq : ¬ isQuote c = true) (hcomment : ¬ (c = '/' ∧ cs.head? = some '*')) :
    lexeme fresh c cs = .ok ⟨.punctuation, (c :: cs).take (punctuatorLength (c :: cs)),
      (c :: cs).drop (punctuatorLength (c :: cs))⟩ := by
  rw [lexeme.eq_def, if_neg hc, if_neg hw, if_neg hn, if_neg hq, if_neg hcomment]

end Sorts

/-- A punctuator is no longer than the text. -/
theorem punctuatorLength_le (c : Char) (cs : List Char) :
    punctuatorLength (c :: cs) ≤ (c :: cs).length := by
  unfold punctuatorLength
  split
  next p hp =>
    have hpre := List.find?_some hp
    rw [List.isPrefixOf_iff_prefix] at hpre
    have := hpre.length_le
    rwa [String.length_toList] at this
  next => simp

/-- A text is a lexeme of its kind before some other text. Directives are apart. -/
inductive Lexes (kind : TokenKind) (text after : List Char) : Prop
  | word {c : Char} {cs : List Char} (hk : kind = .word) (ht : text = c :: cs)
      (hc : isWordStart c = true) (hcs : ∀ d ∈ cs, isWordPart d = true)
      (hend : after.head?.any isWordPart = false)
      (hm : (isLiteralMark c && (cs ++ after).head?.any isQuote) = false)
  | number {c : Char} {cs : List Char} (hk : kind = .number) (ht : text = c :: cs)
      (hw : ¬ isWordStart c = true) (hd : (c.isDigit || (c == '.' && cs.head?.any Char.isDigit)) = true)
      (hs : splitNumber c (cs ++ after) = (cs, after))
  | literal {opening body : List Char} {quote : Char}
      (hk : kind = if quote = '"' then .string else .character) (ht : text = opening ++ body)
      (hq : isQuote quote = true)
      (ho : opening = [quote] ∨ ∃ mark, isLiteralMark mark = true ∧ opening = [mark, quote])
      (hb : splitLiteral quote (body ++ after) = some (body, after))
  | punctuation {c : Char} {cs : List Char} (hk : kind = .punctuation) (ht : text = c :: cs)
      (hw : ¬ isWordStart c = true)
      (hn : ¬ (c.isDigit || (c == '.' && (cs ++ after).head?.any Char.isDigit)) = true)
      (hq : ¬ isQuote c = true) (hcomment : ¬ (c = '/' ∧ (cs ++ after).head? = some '*'))
      (hl : punctuatorLength (c :: cs ++ after) = (c :: cs).length)

theorem isQuote_cases {quote : Char} (h : isQuote quote = true) : quote = '"' ∨ quote = '\'' := by
  simpa [isQuote] using h

theorem isLiteralMark_cases {mark : Char} (h : isLiteralMark mark = true) :
    mark = 'L' ∨ mark = 'u' ∨ mark = 'U' := by
  simpa [isLiteralMark, or_assoc] using h

/-- A literal that was read stands in the text as it is spelled. -/
theorem lexes_of_quotedLexeme {opening cs text after : List Char} {quote : Char} {kind : TokenKind}
    (hq : isQuote quote = true)
    (ho : opening = [quote] ∨ ∃ mark, isLiteralMark mark = true ∧ opening = [mark, quote])
    (h : quotedLexeme opening quote cs = .ok ⟨kind, text, after⟩) : Lexes kind text after := by
  unfold quotedLexeme at h
  split at h
  next body rest hs =>
    cases h
    exact .literal rfl rfl hq ho (splitLiteral_extend hq hs after)
  next => cases h

section Lexes

variable {fresh : Bool} {kind : TokenKind} {c : Char} {cs text after : List Char}

/-- What is read as a number ends where the reading stopped. -/
theorem splitNumber_self (last : Char) (cs : List Char) :
    splitNumber last ((splitNumber last cs).1 ++ (splitNumber last cs).2) = splitNumber last cs := by
  rw [splitNumber_append]

/-- **A lexeme that was read is one in itself**: its text and what comes behind it decide all of it.
-/
theorem lexes_of_lexeme (hk : kind ≠ .directive)
    (h : lexeme fresh c cs = .ok ⟨kind, text, after⟩) : Lexes kind text after := by
  by_cases hc : c = '#' ∧ fresh = true
  · rw [lexeme.eq_def, if_pos hc] at h
    cases h
    exact absurd rfl hk
  by_cases hw : isWordStart c = true
  · by_cases hm : (isLiteralMark c && cs.head?.any isQuote) = true
    · cases cs with
      | nil => simp at hm
      | cons quote body =>
        obtain ⟨hmark, hq⟩ := Bool.and_eq_true_iff.1 hm
        have hq : isQuote quote = true := hq
        rw [lexeme_marked hc hw hmark hq] at h
        exact lexes_of_quotedLexeme hq (.inr ⟨c, hmark, rfl⟩) h
    · have hm : (isLiteralMark c && cs.head?.any isQuote) = false := by simpa using hm
      rw [lexeme_word hc hw hm] at h
      cases h
      exact .word rfl rfl hw (fun d hd => List.mem_takeWhile_imp hd) (dropWhile_head? _)
        (by rwa [List.takeWhile_append_dropWhile])
  by_cases hn : (c.isDigit || (c == '.' && cs.head?.any Char.isDigit)) = true
  · rw [lexeme_number hc hw hn] at h
    cases h
    refine .number rfl rfl hw ?_ (splitNumber_self c cs)
    cases cs with
    | nil => exact hn
    | cons d cs =>
      -- a point is a number only with a digit behind it, which belongs to the number
      rw [splitNumber_cons]
      by_cases hd : d.isDigit = true
      · rw [if_pos (by simp [numberGoesOn, isWordPart, hd])]
        exact hn
      · rw [List.head?_cons, Option.any_some, eq_false_of_ne_true hd, Bool.and_false,
          Bool.or_false] at hn
        rw [hn, Bool.true_or]
  by_cases hq : isQuote c = true
  · rw [lexeme_quoted hc hw hn hq] at h
    exact lexes_of_quotedLexeme hq (.inl rfl) h
  have hcomment : ¬ (c = '/' ∧ cs.head? = some '*') := by
    intro hcomment
    rw [lexeme.eq_def, if_neg hc, if_neg hw, if_neg hn, if_neg hq, if_pos hcomment] at h
    cases h
  rw [lexeme_punctuator hc hw hn hq hcomment] at h
  cases h
  have hlen := List.length_take_of_le (punctuatorLength_le c cs)
  have happ := List.take_append_drop (punctuatorLength (c :: cs)) (c :: cs)
  obtain ⟨d, ds, hd⟩ := List.exists_cons_of_ne_nil
    (List.ne_nil_of_length_pos (hlen.symm ▸ punctuatorLength_pos (c :: cs)))
  rw [hd] at hlen happ ⊢
  rw [List.cons_append] at happ
  obtain ⟨rfl, hds⟩ := List.cons_eq_cons.1 happ
  exact .punctuation rfl rfl hw (by rwa [hds]) hq (by rwa [hds])
    (by rw [List.cons_append, happ]; exact hlen.symm)

/-- And a text that is a lexeme in itself is read as that one. -/
theorem lexeme_of_lexes (h : Lexes kind (c :: cs) after) (hc : ¬ (c = '#' ∧ fresh = true)) :
    lexeme fresh c (cs ++ after) = .ok ⟨kind, c :: cs, after⟩ := by
  cases h with
  | word hk ht hw hcs hend hm =>
    cases ht
    obtain ⟨h1, h2⟩ := takeWhile_eq_self hcs hend
    rw [lexeme_word hc hw hm, h1, h2, hk]
  | number hk ht hw hd hs =>
    cases ht
    have hn : (c.isDigit || (c == '.' && (cs ++ after).head?.any Char.isDigit)) = true := by
      cases cs with
      | nil =>
        rw [List.head?_nil, Option.any_none, Bool.and_false, Bool.or_false] at hd
        rw [hd, Bool.true_or]
      | cons d cs => exact hd
    rw [lexeme_number hc hw hn, hs, hk]
  | @literal opening body quote hk ht hq ho hb =>
    have hquoted : quotedLexeme opening quote (body ++ after) = .ok ⟨kind, c :: cs, after⟩ := by
      rw [quotedLexeme, hb, ht, hk]
    rcases ho with rfl | ⟨mark, hmark, rfl⟩
    · cases ht
      have hcases := isQuote_cases hq
      rw [lexeme_quoted hc (by rcases hcases with rfl | rfl <;> decide)
        (by rcases hcases with rfl | rfl <;> simp) hq]
      exact hquoted
    · cases ht
      have hw : isWordStart c = true := by
        rcases isLiteralMark_cases hmark with rfl | rfl | rfl <;> decide
      show lexeme fresh c (quote :: (body ++ after)) = _
      rw [lexeme_marked hc hw hmark hq]
      exact hquoted
  | punctuation hk ht hw hn hq hcomment hl =>
    cases ht
    rw [List.cons_append] at hl
    rw [lexeme_punctuator hc hw hn hq hcomment, hl, ← List.cons_append, List.take_left,
      List.drop_left, hk]

/-- Whether a character would go on with a lexeme right before it. -/
def joins (kind : TokenKind) (text : List Char) (d : Char) : Bool :=
  ((kind == .word || kind == .number) && isWordPart d) || (text == ['.'] && d.isDigit)

/-- A character that is no part of a word joins only what it makes longer. -/
theorem joins_eq_false {d : Char} (hw : isWordPart d = false) : joins kind text d = false := by
  have hd : d.isDigit = false := by
    rw [isWordPart, Bool.or_eq_false_iff] at hw
    exact hw.2
  simp [joins, hw, hd]

/-- What is true of the first character behind a stretch stays true where the text is cut off behind
the stretch, if it is true of the new character or the stretch is not empty. -/
theorem head?_change {p : Char → Bool} {d : Char} {x y w : List Char}
    (h : (x ++ y).head?.any p = false) (hd : x = [] → p d = false) :
    (x ++ d :: w).head?.any p = false := by
  cases x with
  | nil => exact hd rfl
  | cons e x => exact h

/-- **A lexeme keeps its reach** where the text behind it is cut off and goes on with a character
that does not join it. -/
theorem Lexes.change {d : Char} {x y w : List Char} (h : Lexes kind text (x ++ y))
    (hd : Neutral d) (hj : x = [] → joins kind text d = false) : Lexes kind text (x ++ d :: w) := by
  cases h with
  | @word c cs hk ht hc hcs hend hm =>
    refine .word hk ht hc hcs (head?_change hend fun hx => ?_) ?_
    · have := hj hx
      rw [hk, joins, Bool.or_eq_false_iff] at this
      simpa using this.1
    · rw [Bool.and_eq_false_iff] at hm ⊢
      refine hm.imp_right fun hm => ?_
      rw [← List.append_assoc] at hm ⊢
      exact head?_change hm fun _ => hd.2
  | @number c cs hk ht hw hn hs =>
    refine .number hk ht hw hn (splitNumber_change hs fun last h => head?_change h fun hx => ?_)
    have := hj hx
    rw [hk, joins, Bool.or_eq_false_iff] at this
    rw [hd.numberGoesOn_eq]
    simpa using this.1
  | literal hk ht hq ho hb => exact .literal hk ht hq ho (splitLiteral_extend hq hb _)
  | @punctuation c cs hk ht hw hn hq hcomment hl =>
    -- the new character is neither a digit behind a point nor a star behind a slash
    refine .punctuation hk ht hw ?_ hq ?_ (punctuatorLength_change hl hd)
    · rw [Bool.or_eq_true, Bool.and_eq_true, not_or, not_and] at hn ⊢
      refine ⟨hn.1, fun hpoint => ?_⟩
      have hn := hn.2 hpoint
      rw [Bool.not_eq_true, ← List.append_assoc] at hn ⊢
      refine head?_change hn fun hx => ?_
      obtain ⟨rfl, rfl⟩ := List.append_eq_nil_iff.1 hx
      have := hj rfl
      rw [joins, Bool.or_eq_false_iff, ht, eq_of_beq hpoint] at this
      simpa using this.2
    · intro ⟨hslash, hstar⟩
      refine hcomment ⟨hslash, ?_⟩
      rw [← List.append_assoc] at hstar ⊢
      cases hx : cs ++ x with
      | nil =>
        rw [hx] at hstar
        exact absurd (Option.some.inj hstar) (hd.ne (p := "*=") (by decide) (by decide))
      | cons e v =>
        rw [hx] at hstar
        exact hstar

end Lexes

/-- No other punctuator begins with a parenthesis or a semicolon, so these stand for themselves
before any text. -/
theorem lexeme_single {c : Char} (hc : c = '(' ∨ c = ')' ∨ c = ';') (fresh : Bool)
    (cs : List Char) : lexeme fresh c cs = .ok ⟨.punctuation, [c], cs⟩ := by
  have hnone : ∀ p ∈ longPunctuators, ¬ p.toList.isPrefixOf (c :: cs) = true := by
    rcases hc with rfl | rfl | rfl <;> simp [longPunctuators]
  have hlength : punctuatorLength (c :: cs) = 1 := by
    rw [punctuatorLength, List.find?_eq_none.2 hnone]
  rcases hc with rfl | rfl | rfl <;>
    rw [lexeme_punctuator (by simp) (by decide) (by simp) (by decide) (by simp), hlength] <;> rfl

/-! ### Directives -/

/-- A directive ends at a line end, if it does not end in a backslash. -/
theorem splitDirective_change : ∀ {cs w : List Char}, splitDirective (cs ++ w) = (cs, w) →
    cs.getLast? ≠ some '\\' → ∀ z, splitDirective (cs ++ '\n' :: z) = (cs, '\n' :: z)
  | [], _, _, _, z => by
    cases z with
    | nil => rw [List.nil_append, splitDirective, if_pos rfl]
    | cons d z => rw [List.nil_append, splitDirective, if_pos rfl]
  | [a], w, h, hlast, z => by
    have ha : a ≠ '\n' := by
      intro heq
      subst heq
      cases w <;> simp [splitDirective] at h
    have hb : a ≠ '\\' := by simpa using hlast
    show splitDirective (a :: '\n' :: z) = _
    rw [splitDirective, if_neg ha, if_neg fun h => hb h.1]
    cases z with
    | nil => rw [splitDirective, if_pos rfl]
    | cons d z => rw [splitDirective, if_pos rfl]
  | a :: b :: cs, w, h, hlast, z => by
    have ha : a ≠ '\n' := by
      intro heq
      subst heq
      simp [splitDirective] at h
    rw [List.cons_append, List.cons_append, splitDirective, if_neg ha] at h ⊢
    split at h
    next hb =>
      -- a line end behind a backslash belongs to the directive
      rw [if_pos hb]
      have hrest : splitDirective (cs ++ w) = (cs, w) := by
        injection h with h1 h2
        exact Prod.ext (by simpa using h1) h2
      have hlast' : cs.getLast? ≠ some '\\' := by
        cases cs with
        | nil => simp
        | cons d cs => simpa [List.getLast?_cons_cons] using hlast
      rw [splitDirective_change hrest hlast' z]
    next hb =>
      rw [if_neg hb]
      have hrest : splitDirective ((b :: cs) ++ w) = (b :: cs, w) := by
        injection h with h1 h2
        exact Prod.ext (by simpa using h1) h2
      rw [← List.cons_append,
        splitDirective_change hrest (by simpa [List.getLast?_cons_cons] using hlast) z]

end WitnessReplay
