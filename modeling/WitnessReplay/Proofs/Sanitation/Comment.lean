import WitnessReplay.Proofs.Sanitation.Scan
import WitnessReplay.Proofs.Source.Relexing

/-!
# What the sanitizer takes for a comment

The sanitizer and the reader of tokens find comments independently of each other. The reader knows
comments as units of gaps; the sanitizer runs over the characters and knows string literals, in
which nothing is a comment, and nothing else. Over the gaps of a text the two agree, and over every
token that the sanitizer passes as it is (`Token.Shielded`): all but a string literal with an
escaped line end, and a character literal that holds a double quote or the mark of a comment. So in
a text of such tokens exactly the comments are blanked (`lexed_uncommented`), and the text reads as
it did (`tokenize_sanitize`).

A character literal with a double quote in it is taken for the start of a string literal, and what
follows the quote is no longer protected (`not_tokenize_sanitize`).
-/

namespace WitnessReplay

open Text Text.Pattern

namespace Sanitation

/-! ### Single matches -/

/-- The substitution that blanks comments. -/
def comments : Substitution :=
  ⟨false, commentOrString, .blankComment⟩

/-- Comments are the first thing that is blanked. -/
theorem substitutions_eq : substitutions = comments :: substitutions.tail := rfl

/-- A text with its comments blanked. -/
def uncommented (cs : List Char) : List Char :=
  comments.apply cs

/-- What stands before a place does not matter to comments. -/
theorem applyFrom_comments (inWord : Bool) (cs : List Char) :
    comments.applyFrom 0 inWord cs = uncommented cs := by
  cases cs <;> rfl

@[simp] theorem uncommented_nil : uncommented [] = [] := rfl

/-- A character at which no comment or string begins stays. -/
theorem uncommented_cons {c : Char} {rest : List Char} (h : commentOrString (c :: rest) = none) :
    uncommented (c :: rest) = c :: uncommented rest := by
  have hfind : comments.find? false (c :: rest) = none := congrArg (Option.map Prod.fst) h
  rw [← applyFrom_comments (isWordChar c) rest]
  exact Substitution.applyFrom_none hfind

/-- What the pattern finds is blanked, if it is a comment, and the text behind is treated alike. -/
theorem uncommented_found (found : List Char) {behind : List Char}
    (h : commentOrString (found ++ behind) = some (found, behind)) :
    uncommented (found ++ behind) = Action.blankComment.apply found ++ uncommented behind := by
  have hfind : comments.find? false (found ++ behind) = some found :=
    congrArg (Option.map Prod.fst) h
  have hlen := two_le_commentOrString h
  rw [← applyFrom_comments (endsInWord found) behind]
  exact Substitution.applyFrom_found hfind (List.ne_nil_of_length_pos (by omega))

theorem exactly_append (word rest : List Char) :
    exactly word (word ++ rest) = some (word, rest) := by
  rw [exactly, if_pos (List.isPrefixOf_iff_prefix.2 (List.prefix_append ..)), List.drop_left]

theorem exactly_eq_none {word cs : List Char} (h : ¬ word <+: cs) : exactly word cs = none := by
  rw [exactly, if_neg fun hp => h (List.isPrefixOf_iff_prefix.1 hp)]

/-- A word in front of a pattern is taken with what the pattern takes behind it. -/
theorem seq_exactly (word : List Char) {rest a after : List Char} {p : Pattern}
    (h : p rest = some (a, after)) :
    Pattern.seq (exactly word) p (word ++ rest) = some (word ++ a, after) := by
  rw [Pattern.seq, exactly_append]
  dsimp only
  rw [h]
  rfl

theorem seq_exactly_eq_none {word cs : List Char} {p : Pattern} (h : ¬ word <+: cs) :
    Pattern.seq (exactly word) p cs = none := by
  rw [Pattern.seq, exactly_eq_none h]

theorem orElse_of_none {p q : Pattern} {cs : List Char} (h : p cs = none) :
    orElse p q cs = q cs := by
  rw [orElse, h]

theorem orElse_of_some {p q : Pattern} {cs : List Char} {r : List Char × List Char}
    (h : p cs = some r) : orElse p q cs = some r := by
  rw [orElse, h]

/-- A character begins neither a string literal nor a comment. -/
def Passed (c : Char) (rest : List Char) : Prop :=
  c ≠ '"' ∧ (c = '/' → rest.head? ≠ some '/' ∧ rest.head? ≠ some '*')

/-- No comment and no string begins at a character that is passed. -/
theorem Passed.commentOrString {c : Char} {rest : List Char} (h : Passed c rest) :
    commentOrString (c :: rest) = none := by
  obtain ⟨hquote, hslash⟩ := h
  have hmark {d : Char} (hd : d = '/' ∨ d = '*') : ¬ ['/', d] <+: c :: rest := by
    intro hp
    obtain ⟨hc, hp⟩ := List.cons_prefix_cons.1 hp
    obtain ⟨tail, rfl⟩ := hp
    have := hslash hc.symm
    rcases hd with rfl | rfl <;> simp at this
  rw [Sanitation.commentOrString, orElse_of_none, orElse_of_none]
  · exact seq_exactly_eq_none (hmark (.inr rfl))
  · exact seq_exactly_eq_none (hmark (.inl rfl))
  · exact seq_exactly_eq_none fun hp => hquote (List.cons_prefix_cons.1 hp).1.symm

/-- A string is found through its closing quote. -/
theorem commentOrString_string {body behind : List Char}
    (h : restOfString (body ++ behind) = some (body, behind)) :
    commentOrString ('"' :: (body ++ behind)) = some ('"' :: body, behind) :=
  orElse_of_some (seq_exactly ['"'] h)

/-- A line comment is found up to the end of the line. -/
theorem commentOrString_line (rest : List Char) : commentOrString ('/' :: '/' :: rest)
    = some ('/' :: '/' :: rest.takeWhile (· ≠ '\n'), rest.dropWhile (· ≠ '\n')) := by
  rw [commentOrString, orElse_of_none (seq_exactly_eq_none (by simp))]
  exact orElse_of_some (seq_exactly ['/', '/'] rfl)

/-- A block comment is found through its end. -/
theorem commentOrString_block {body behind : List Char}
    (h : through ['*', '/'] (body ++ behind) = some (body, behind)) :
    commentOrString ('/' :: '*' :: (body ++ behind)) = some ('/' :: '*' :: body, behind) := by
  rw [commentOrString, orElse_of_none (seq_exactly_eq_none (by simp)),
    orElse_of_none (seq_exactly_eq_none (by simp))]
  exact seq_exactly ['/', '*'] h

/-! ### Blanks -/

theorem byteSize_replicate (n : Nat) : byteSize (List.replicate n ' ') = n := by
  induction n with
  | zero => rfl
  | succ n ih =>
    rw [List.replicate_succ, byteSize_cons, ih, Nat.add_comm]
    rfl

/-- Blanking keeps the number of bytes. -/
theorem byteSize_blank (cs : List Char) : byteSize (blank cs) = byteSize cs := by
  induction cs with
  | nil => rfl
  | cons c cs ih =>
    rw [blank_cons, byteSize_append, ih, byteSize_cons]
    split
    next h => rw [h]; rfl
    next => rw [byteSize_replicate]

/-- Blanking keeps the line ends. -/
theorem count_blank (cs : List Char) : (blank cs).count '\n' = cs.count '\n' := by
  induction cs with
  | nil => rfl
  | cons c cs ih =>
    rw [blank_cons, List.count_append, ih, List.count_cons]
    split
    next h => simp [h, Nat.add_comm]
    next h => simp [h, List.count_replicate]

/-- Blanks for a text that does not begin with a line end begin with a space. -/
theorem blank_cons_of_ne {c : Char} (hc : c ≠ '\n') (cs : List Char) :
    ∃ more, blank (c :: cs) = ' ' :: more := by
  have := c.utf8Size_pos
  obtain ⟨n, hn⟩ := Nat.exists_eq_add_of_lt this
  refine ⟨List.replicate n ' ' ++ blank cs, ?_⟩
  rw [blank_cons, if_neg hc, hn, Nat.zero_add, List.replicate_succ]
  rfl

/-- The place behind two gaps in a row. -/
theorem skip_append (place : Cursor) (g g' : List Char) :
    place.skip (g ++ g') = (place.skip g).skip g' := by
  simp [Cursor.skip, Nat.add_assoc, Bool.or_assoc]

/-- So a cursor comes to the same place behind a text that was blanked. -/
theorem skip_blank (place : Cursor) (cs : List Char) : place.skip (blank cs) = place.skip cs := by
  have hline : (blank cs).contains '\n' = cs.contains '\n' := by
    rw [Bool.eq_iff_iff, List.contains_iff_mem, List.contains_iff_mem, ← List.count_pos_iff,
      ← List.count_pos_iff, count_blank]
  rw [Cursor.skip, Cursor.skip, byteSize_blank, count_blank, hline]

/-! ### Gaps -/

/-- A gap without comments that is as long as another gap, and in which lines end where they do
there. -/
structure Clears (g g' : List Char) : Prop where
  gap : Gap g'
  clear : ∀ c ∈ g', c ≠ '"' ∧ c ≠ '/'
  skip : ∀ place : Cursor, place.skip g' = place.skip g

theorem Clears.nil : Clears [] [] :=
  ⟨.nil, List.forall_mem_nil _, fun _ => rfl⟩

theorem Clears.append {g g' h h' : List Char} (hg : Clears g g') (hh : Clears h h') :
    Clears (g ++ h) (g' ++ h') := by
  refine ⟨hg.gap.append hh.gap, ?_, fun place => ?_⟩
  · intro c hc
    exact (List.mem_append.1 hc).elim (hg.clear c) (hh.clear c)
  · rw [skip_append, skip_append, hg.skip, hh.skip]

theorem isSpacing_ne {c : Char} (hc : isSpacing c = true) : c ≠ '"' ∧ c ≠ '/' := by
  constructor <;> rintro rfl <;> exact absurd hc (by decide)

theorem gap_of_spacing {g : List Char} (h : ∀ c ∈ g, isSpacing c = true) : Gap g := by
  induction g with
  | nil => exact .nil
  | cons c g ih =>
    exact .blank (h c (by simp)) (ih fun d hd => h d (List.mem_cons_of_mem _ hd))

theorem clears_blank (cs : List Char) : Clears cs (blank cs) := by
  have hspacing : ∀ c ∈ blank cs, isSpacing c = true := by
    intro c hc
    rcases mem_blank hc with rfl | rfl <;> decide
  exact ⟨gap_of_spacing hspacing, fun c hc => isSpacing_ne (hspacing c hc),
    fun place => skip_blank place cs⟩

/-- White space is clear already. -/
theorem clears_blank_unit {c : Char} (hc : isSpacing c = true) : Clears [c] [c] :=
  ⟨.blank hc .nil, fun d hd => by
    rw [List.mem_singleton.1 hd]
    exact isSpacing_ne hc, fun _ => rfl⟩

/-- A line end behind a backslash is clear already. -/
theorem clears_continued : Clears ['\\', '\n'] ['\\', '\n'] :=
  ⟨.continued .nil, by simp, fun _ => rfl⟩

/-- The lexer and the pattern find the same end of a block comment. -/
theorem through_of_splitComment {cs body after : List Char}
    (h : splitComment cs = some (body, after)) : through ['*', '/'] cs = some (body, after) := by
  fun_induction splitComment cs generalizing body with
  | case1 => cases h
  | case2 => cases h
  | case3 a b rest hc =>
    cases h
    obtain ⟨rfl, rfl⟩ := hc
    rw [through, show '*' :: '/' :: after = ['*', '/'] ++ after from rfl, exactly_append]
  | case4 a b rest hc ih =>
    obtain ⟨⟨body', after'⟩, hp, heq⟩ := Option.map_eq_some_iff.1 h
    cases heq
    have hnone : ¬ ['*', '/'] <+: a :: b :: rest := by
      intro hp
      obtain ⟨ha, hp⟩ := List.cons_prefix_cons.1 hp
      exact hc ⟨ha.symm, (List.cons_prefix_cons.1 hp).1.symm⟩
    rw [through, exactly_eq_none hnone]
    dsimp only
    rw [ih hp]
    rfl

theorem uncommented_blank {c : Char} (hc : isSpacing c = true) (rest : List Char) :
    uncommented (c :: rest) = c :: uncommented rest :=
  have hne := isSpacing_ne hc
  uncommented_cons (Passed.commentOrString ⟨hne.1, fun h => absurd h hne.2⟩)

theorem uncommented_continued (rest : List Char) :
    uncommented ('\\' :: '\n' :: rest) = '\\' :: '\n' :: uncommented rest := by
  rw [uncommented_cons (Passed.commentOrString ⟨by decide, by simp⟩), uncommented_blank rfl]

/-- A line comment is blanked up to the end of its line. -/
theorem uncommented_line {body : List Char} (rest : List Char) (hb : '\n' ∉ body)
    (hr : rest.head?.all (· == '\n') = true) :
    uncommented ('/' :: '/' :: (body ++ rest))
      = blank ('/' :: '/' :: body) ++ uncommented rest := by
  have hall : ∀ c ∈ body, decide (c ≠ '\n') = true :=
    fun c hc => decide_eq_true fun he => hb (he ▸ hc)
  have hstop : rest.head?.any (fun c => decide (c ≠ '\n')) = false := by
    cases rest with
    | nil => rfl
    | cons d rest => simpa using hr
  obtain ⟨h1, h2⟩ := takeWhile_eq_self hall hstop
  have hfound := commentOrString_line (body ++ rest)
  rw [h1, h2] at hfound
  exact uncommented_found ('/' :: '/' :: body) hfound

/-- A block comment is blanked as a whole. -/
theorem uncommented_block {body : List Char} (hb : splitComment body = some (body, []))
    (rest : List Char) :
    uncommented ('/' :: '*' :: (body ++ rest)) = blank ('/' :: '*' :: body) ++ uncommented rest :=
  uncommented_found ('/' :: '*' :: body)
    (commentOrString_block (through_of_splitComment (splitComment_extend hb rest)))

/-- In a gap the comments are blanked, whatever stands behind it. -/
theorem exists_clears {g : List Char} (hg : Gap g) :
    ∃ g', Clears g g' ∧ ∀ rest, uncommented (g ++ rest) = g' ++ uncommented rest := by
  induction hg with
  | nil => exact ⟨[], .nil, fun _ => rfl⟩
  | @blank c g hc _ ih =>
    obtain ⟨g', hclears, happ⟩ := ih
    refine ⟨[c] ++ g', (clears_blank_unit hc).append hclears, fun rest => ?_⟩
    rw [List.cons_append, uncommented_blank hc, happ]
    rfl
  | @continued g _ ih =>
    obtain ⟨g', hclears, happ⟩ := ih
    refine ⟨['\\', '\n'] ++ g', clears_continued.append hclears, fun rest => ?_⟩
    rw [List.cons_append, List.cons_append, uncommented_continued, happ]
    rfl
  | @line body g hb _ ih =>
    obtain ⟨g', hclears, happ⟩ := ih
    refine ⟨blank ('/' :: '/' :: body) ++ (['\n'] ++ g'), ?_, fun rest => ?_⟩
    · exact (clears_blank ('/' :: '/' :: body)).append
        ((clears_blank_unit (c := '\n') rfl).append hclears)
    · -- the line end behind a line comment is a blank of its own, and stays
      have hgap : '/' :: '/' :: (body ++ '\n' :: g) ++ rest
          = '/' :: '/' :: (body ++ '\n' :: (g ++ rest)) := by simp
      rw [hgap, uncommented_line _ hb rfl, uncommented_blank rfl, happ]
      simp
  | @block body g hb _ ih =>
    obtain ⟨g', hclears, happ⟩ := ih
    refine ⟨blank ('/' :: '*' :: body) ++ g', (clears_blank ('/' :: '*' :: body)).append hclears,
      fun rest => ?_⟩
    have hgap : '/' :: '*' :: (body ++ g) ++ rest = '/' :: '*' :: (body ++ (g ++ rest)) := by simp
    rw [hgap, uncommented_block hb, happ]
    simp

/-- A gap is cleared, whatever comes behind it. -/
theorem uncommented_gap {g : List Char} (hg : Gap g) :
    Clears g (uncommented g) ∧
      ∀ rest, uncommented (g ++ rest) = uncommented g ++ uncommented rest := by
  obtain ⟨g', hclears, happ⟩ := exists_clears hg
  have hself := happ []
  rw [List.append_nil, uncommented_nil, List.append_nil] at hself
  rw [hself]
  exact ⟨hclears, happ⟩

/-- The gap at the end of a text is cleared of its comments too. -/
theorem clears_uncommented {cs : List Char} (h : (splitGap cs).2 = []) :
    Clears cs (uncommented cs) := by
  obtain ⟨g, tail, hcs, hg, htail⟩ := exists_of_splitGap cs
  rw [← List.append_nil (splitGap cs).1, ← h, splitGap_append] at hcs
  obtain ⟨hclears, happ⟩ := uncommented_gap hg
  rw [hcs, happ]
  refine hclears.append ?_
  rcases htail with rfl | ⟨-, body, rfl, hb⟩
  · exact .nil
  · have hline := uncommented_line [] hb rfl
    rw [List.append_nil, uncommented_nil, List.append_nil] at hline
    rw [hline]
    exact clears_blank _

end Sanitation

/-! ### Tokens -/

namespace Token

/-- The sanitizer passes a token as it is. It does not know character literals, and it ends a string
literal at a line end, escaped or not. -/
def Shielded (t : Token) : Prop :=
  (t.kind = .string → '\n' ∉ t.text.toList) ∧
    (t.kind = .character → '"' ∉ t.text.toList ∧ ¬ ['/', '/'] <:+: t.text.toList ∧
      ¬ ['/', '*'] <:+: t.text.toList)

instance (t : Token) : Decidable t.Shielded :=
  inferInstanceAs (Decidable (_ ∧ _))

/-- A token without its gap: its kind, its text and where it stands. -/
def ungapped (t : Token) : Token :=
  { t with gap := "" }

/-- A token with the comments before it blanked. -/
def uncommented (t : Token) : Token :=
  { t with gap := String.ofList (Sanitation.uncommented t.gap.toList) }

end Token

namespace Sanitation

/-- A text stays if every character of it is passed. -/
theorem uncommented_passed {text rest : List Char}
    (h : ∀ x c y, text = x ++ c :: y → Passed c (y ++ rest)) :
    uncommented (text ++ rest) = text ++ uncommented rest := by
  induction text with
  | nil => rfl
  | cons c text ih =>
    have hrest : ∀ x d y, text = x ++ d :: y → Passed d (y ++ rest) := by
      intro x d y ht
      exact h (c :: x) d y (by rw [ht]; rfl)
    rw [List.cons_append, uncommented_cons (h [] c text rfl).commentOrString, ih hrest,
      List.cons_append]

/-- A text without double quotes, in which no comment opens, and none with what follows. -/
theorem passed_of_not_infix {text : List Char} (hquote : '"' ∉ text)
    (hline : ¬ ['/', '/'] <:+: text) (hblock : ¬ ['/', '*'] <:+: text)
    (hlast : text.getLast? ≠ some '/') {x y : List Char} {c : Char} (rest : List Char)
    (ht : text = x ++ c :: y) : Passed c (y ++ rest) := by
  subst ht
  refine ⟨fun hc => hquote (by simp [hc]), fun hc => ?_⟩
  subst hc
  cases y with
  | nil => simp at hlast
  | cons d y =>
    constructor
    · rintro ⟨⟩
      exact hline ⟨x, y, by simp⟩
    · rintro ⟨⟩
      exact hblock ⟨x, y, by simp⟩

/-- The lexer and the pattern find the same end of a string that stands on one line. -/
theorem restOfString_of_splitLiteral {cs body after : List Char}
    (h : splitLiteral '"' cs = some (body, after)) (hb : '\n' ∉ body) :
    restOfString cs = some (body, after) := by
  fun_induction splitLiteral '"' cs generalizing body with
  | case1 => cases h
  | case2 => cases h; rfl
  | case3 => cases h
  | case4 => cases h
  | case5 b rest _ ih =>
    obtain ⟨⟨body', after'⟩, hp, heq⟩ := Option.map_eq_some_iff.1 h
    cases heq
    simp only [List.mem_cons, not_or] at hb
    rw [restOfString, if_neg (by decide), if_neg (by decide), if_pos rfl,
      if_neg (Ne.symm hb.2.1), ih hp hb.2.2]
    rfl
  | case6 => cases h; rw [restOfString, if_pos rfl]
  | case7 a b rest hn hback hq ih =>
    obtain ⟨⟨body', after'⟩, hp, heq⟩ := Option.map_eq_some_iff.1 h
    cases heq
    simp only [List.mem_cons, not_or] at hb
    rw [restOfString, if_neg hq, if_neg hn, if_neg hback, ih hp hb.2]
    rfl

/-- A string literal is matched as a whole, and kept. -/
theorem uncommented_string {body rest : List Char}
    (h : splitLiteral '"' (body ++ rest) = some (body, rest)) (hb : '\n' ∉ body) :
    uncommented ('"' :: (body ++ rest)) = '"' :: body ++ uncommented rest :=
  uncommented_found ('"' :: body)
    (commentOrString_string (restOfString_of_splitLiteral h hb))

/-- A character of a word or number begins neither a string literal nor a comment. -/
theorem passed_of_numberGoesOn {c last : Char} (h : numberGoesOn last c = true)
    (rest : List Char) : Passed c rest := by
  constructor
  · rintro rfl
    exact absurd h (by simp [numberGoesOn]; decide)
  · rintro rfl
    exact absurd h (by simp [numberGoesOn]; decide)

/-- No punctuator has a quote or the beginning of a comment in it, and none ends so that one can
begin with its last character. -/
theorem longPunctuators_passed : ∀ p ∈ longPunctuators, '"' ∉ p.toList ∧
    ¬ ['/', '/'] <:+: p.toList ∧ ¬ ['/', '*'] <:+: p.toList ∧ p.toList.getLast? ≠ some '/' := by
  decide

/-- **A token stays as it is**, and what is behind it is looked through anew. -/
theorem uncommented_text {t : Token} {fresh : Bool} {after : List Char}
    (h : t.Stands fresh after) (hk : t.kind ≠ .directive) (hs : t.Shielded) :
    uncommented (t.text.toList ++ after) = t.text.toList ++ uncommented after := by
  -- words, numbers and punctuators: no character of them opens a comment or a string
  cases h.lexes hk with
  | word _ ht hc hcs =>
    refine uncommented_passed fun x c y hxy => ?_
    refine passed_of_numberGoesOn (numberGoesOn_of_isWordPart ?_ ' ') _
    have hmem : c ∈ t.text.toList := by rw [hxy]; simp
    rw [ht] at hmem
    rcases List.mem_cons.1 hmem with rfl | hmem
    · rw [isWordPart, hc, Bool.true_or]
    · exact hcs c hmem
  | @number d cs _ ht hw hd hs' =>
    refine uncommented_passed fun x c y hxy => ?_
    have hmem : c ∈ t.text.toList := by rw [hxy]; simp
    rw [ht] at hmem
    rcases List.mem_cons.1 hmem with rfl | hmem
    · -- a number begins with a digit or a point
      refine passed_of_numberGoesOn (?_ : numberGoesOn ' ' c = true) _
      rw [Bool.or_eq_true, Bool.and_eq_true] at hd
      rcases hd with hd | ⟨hd, -⟩
      · simp [numberGoesOn, isWordPart, hd]
      · simp [numberGoesOn, eq_of_beq hd]
    · have hmem : c ∈ (splitNumber d (cs ++ after)).1 := by rw [hs']; exact hmem
      obtain ⟨last, hgoes⟩ := mem_splitNumber hmem
      exact passed_of_numberGoesOn hgoes _
  | @literal opening body quote hkind ht hq ho hb =>
    -- a literal ends in its quote, so no comment begins with its last character
    have hlast : t.text.toList.getLast? = some quote := by
      rw [ht, List.getLast?_append, getLast?_of_splitLiteral hb, Option.some_or]
    rcases isQuote_cases hq with rfl | rfl
    · have hbody : '\n' ∉ body := fun hm => hs.1 hkind (by rw [ht]; simp [hm])
      rcases ho with rfl | ⟨mark, hmark, rfl⟩
      · rw [ht]
        exact uncommented_string hb hbody
      · have hpassed : Passed mark ('"' :: (body ++ after)) := by
          rcases isLiteralMark_cases hmark with rfl | rfl | rfl <;>
            exact ⟨by decide, fun h => absurd h (by decide)⟩
        rw [ht]
        show uncommented (mark :: '"' :: (body ++ after)) = _
        rw [uncommented_cons hpassed.commentOrString, uncommented_string hb hbody]
        rfl
    · obtain ⟨hquote, hline, hblock⟩ := hs.2 hkind
      exact uncommented_passed fun x c y hxy =>
        passed_of_not_infix hquote hline hblock (by rw [hlast]; decide) _ hxy
  | @punctuation c cs _ ht hw hn hq hcomment hl =>
    rcases punctuator_cases hl with rfl | ⟨p, hp, hpt⟩
    · have hunit := h.1
      rw [ht] at hunit ⊢
      refine uncommented_cons (Passed.commentOrString ⟨?_, fun hc => ⟨fun hnext => ?_, ?_⟩⟩)
      · rintro rfl
        exact hq (by decide)
      · exact (Token.of_gapUnit?_eq_none hunit).2.2 ⟨hc, hnext⟩
      · exact fun hnext => hcomment ⟨hc, hnext⟩
    · obtain ⟨hquote, hline, hblock, hlast⟩ := longPunctuators_passed p hp
      rw [ht, ← hpt]
      exact uncommented_passed fun x c y hxy =>
        passed_of_not_infix hquote hline hblock hlast _ hxy

/-- The first change that blanking comments makes puts in a space. -/
theorem uncommented_differs (cs : List Char) : uncommented cs = cs ∨
    ∃ x y z, cs = x ++ y ∧ uncommented cs = x ++ ' ' :: z := by
  cases cs with
  | nil => exact .inl rfl
  | cons c rest =>
    cases hfind : commentOrString (c :: rest) with
    | none =>
      rw [uncommented_cons hfind]
      rcases uncommented_differs rest with heq | ⟨x, y, z, hrest, heq⟩
      · exact .inl (by rw [heq])
      · exact .inr ⟨c :: x, y, z, by rw [hrest]; rfl, by rw [heq]; rfl⟩
    | some found =>
      obtain ⟨found, behind⟩ := found
      have hcs := commentOrString_splits hfind
      have hlen := two_le_commentOrString hfind
      obtain ⟨d, ds, rfl⟩ := List.exists_cons_of_ne_nil
        (List.ne_nil_of_length_pos (by omega : 0 < found.length))
      have hshort : behind.length < (c :: rest).length := by
        rw [← hcs, List.length_append]
        omega
      rw [← hcs] at hfind ⊢
      rw [uncommented_found _ hfind]
      -- a string is kept and the search goes on; a comment is the first change
      by_cases hquote : d = '"'
      · have hkeep : Action.blankComment.apply (d :: ds) = d :: ds := by
          rw [Action.apply, if_pos (by rw [hquote]; rfl)]
        rw [hkeep]
        rcases uncommented_differs behind with heq | ⟨x, y, z, hbehind, heq⟩
        · exact .inl (by rw [heq])
        · exact .inr ⟨d :: ds ++ x, y, z, by rw [hbehind]; simp, by rw [heq]; simp⟩
      · have hline : d ≠ '\n' := by
          rintro rfl
          have hpassed : Passed '\n' (ds ++ behind) := ⟨by decide, by simp⟩
          rw [List.cons_append, hpassed.commentOrString] at hfind
          cases hfind
        obtain ⟨more, hblank⟩ := blank_cons_of_ne hline ds
        have happly : Action.blankComment.apply (d :: ds) = ' ' :: more := by
          rw [Action.apply, if_neg (by simpa using hquote), hblank]
        exact .inr ⟨[], d :: ds ++ behind, more ++ uncommented behind, rfl, by rw [happly]; rfl⟩
termination_by cs.length
decreasing_by
  all_goals
    simp only [List.length_cons] at *
    omega

theorem neutral_space : Neutral ' ' :=
  neutral_of_isBreaker rfl

/-- A token stands where comments behind it are blanked. -/
theorem stands_uncommented {t : Token} {fresh : Bool} {after : List Char}
    (h : t.Stands fresh after) (hk : t.kind ≠ .directive) : t.Stands fresh (uncommented after) := by
  rcases uncommented_differs after with heq | ⟨x, y, z, hafter, heq⟩
  · rwa [heq]
  · rw [hafter] at h
    rw [heq]
    exact h.goOn hk (h.not_fresh hk) neutral_space (fun _ => joins_eq_false (by decide))
      (fun _ hline => absurd hline (by decide))

/-! ### Texts -/

open Token

/-- **Exactly the comments are blanked**: the text is made of the same tokens at the same places,
with gaps that are cleared. -/
theorem lexed_uncommented {place : Cursor} {ts : List Token} {after : List Char}
    (h : Lexed place ts after) (hk : ∀ t ∈ ts, t.kind ≠ .directive) (hs : ∀ t ∈ ts, t.Shielded) :
    uncommented ((spaced ts).toList ++ after)
        = (spaced (ts.map Token.uncommented)).toList ++ uncommented after ∧
      Lexed place (ts.map Token.uncommented) (uncommented after) := by
  induction ts generalizing place with
  | nil => exact ⟨rfl, trivial⟩
  | cons t ts ih =>
    obtain ⟨hgap, hstart, hline, hstands, hrest⟩ := h
    obtain ⟨htext, hlexed⟩ := ih hrest (fun u hu => hk u (List.mem_cons_of_mem _ hu))
      fun u hu => hs u (List.mem_cons_of_mem _ hu)
    have hkind := hk t (by simp)
    obtain ⟨hclears, happ⟩ := uncommented_gap hgap
    have hgap' : t.uncommented.gap.toList = uncommented t.gap.toList := String.toList_ofList ..
    have hskip := hclears.skip place
    -- blanking moves no offset and no line, so the next token is read from the same place
    have hpast : place.past t.uncommented = place.past t := by
      rw [Cursor.past, hgap', hskip]
      rfl
    refine ⟨?_, ?_⟩
    · have hcs : (spaced (t :: ts)).toList ++ after
          = t.gap.toList ++ (t.text.toList ++ ((spaced ts).toList ++ after)) := by simp [spaced]
      rw [hcs, happ, uncommented_text hstands hkind (hs t (by simp)), htext, List.map_cons, spaced,
        String.toList_append, String.toList_append, hgap']
      simp [Token.uncommented]
    · refine ⟨?_, ?_, ?_, ?_, ?_⟩
      · rw [hgap']
        exact hclears.gap
      · rw [hgap', hskip]
        exact hstart
      · rw [hgap', hskip]
        exact hline
      · rw [hgap', hskip, ← htext]
        exact stands_uncommented hstands hkind
      · rw [hpast]
        exact hlexed

/-! ### Whole runs -/

/-- Whether a substitution finds nothing in a text, where `inWord` says that a word character stands
before it. -/
def Substitution.misses (s : Substitution) (inWord : Bool) : List Char → Bool
  | [] => true
  | c :: rest => (s.find? inWord (c :: rest)).isNone && s.misses (isWordChar c) rest

/-- A substitution that finds nothing changes nothing. -/
theorem Substitution.applyFrom_of_misses {s : Substitution} {inWord : Bool} {cs : List Char}
    (h : s.misses inWord cs = true) : s.applyFrom 0 inWord cs = cs := by
  induction cs generalizing inWord with
  | nil => rfl
  | cons c rest ih =>
    obtain ⟨hfind, hrest⟩ := Bool.and_eq_true_iff.1 h
    rw [applyFrom_none (Option.isNone_iff_eq_none.1 hfind), ih hrest]

/-- A pass in which nothing but comments is found blanks the comments. -/
theorem pass_eq_uncommented {cs : List Char}
    (h : ∀ s ∈ substitutions.tail, s.misses false (uncommented cs) = true) :
    pass cs = uncommented cs := by
  have hfold : ∀ ss : List Substitution, (∀ s ∈ ss, s.misses false (uncommented cs) = true) →
      ss.foldl (fun text s => s.apply text) (uncommented cs) = uncommented cs := by
    intro ss
    induction ss with
    | nil => exact fun _ => rfl
    | cons s ss ih =>
      intro hss
      rw [List.foldl_cons, Substitution.apply, Substitution.applyFrom_of_misses (hss s (by simp))]
      exact ih fun s hs => hss s (List.mem_cons_of_mem _ hs)
  rw [pass, substitutions_eq, List.foldl_cons]
  exact hfold _ h

/-- A text without comments is one pass away from its end. -/
theorem sanitizeFrom_of_pass {cs : List Char} (h : pass (pass cs) = pass cs) :
    sanitizeFrom cs = pass cs := by
  rw [sanitizeFrom]
  split
  next => rw [sanitizeFrom, h, if_neg (Nat.lt_irrefl _)]
  next => rfl

/-- A text without quotes and slashes has no comments. -/
theorem uncommented_clear {cs : List Char} (h : ∀ c ∈ cs, c ≠ '"' ∧ c ≠ '/') :
    uncommented cs = cs := by
  induction cs with
  | nil => rfl
  | cons c cs ih =>
    have hc := h c (by simp)
    rw [uncommented_cons (Passed.commentOrString ⟨hc.1, fun hslash => absurd hslash hc.2⟩),
      ih fun d hd => h d (List.mem_cons_of_mem _ hd)]

/-- Tokens whose gaps were cleared have no comments left. -/
theorem uncommented_uncommented {place : Cursor} {ts : List Token} {after : List Char}
    (h : Lexed place ts after) :
    (ts.map Token.uncommented).map Token.uncommented = ts.map Token.uncommented := by
  induction ts generalizing place with
  | nil => rfl
  | cons t ts ih =>
    have hclear := (uncommented_gap h.1).1.clear
    have htwice : t.uncommented.uncommented = t.uncommented := by
      simp [Token.uncommented, uncommented_clear hclear]
    rw [List.map_cons, List.map_cons, htwice, ih h.2.2.2.2]

/-- A text whose comments are blanked, where all tokens are passed as they are, reads as it did, and
has no comments left. -/
theorem tokenize_uncommented {source : String} {ts : List Token} (h : tokenize source = .ok ts)
    (hk : ∀ t ∈ ts, t.kind ≠ .directive) (hs : ∀ t ∈ ts, t.Shielded) :
    ∃ after, uncommented source.toList = (spaced (ts.map Token.uncommented)).toList ++ after ∧
      Lexed .start (ts.map Token.uncommented) after ∧ Gap after ∧
      (∀ c ∈ after, c ≠ '"' ∧ c ≠ '/') ∧
      uncommented (uncommented source.toList) = uncommented source.toList := by
  obtain ⟨after, hsource, hlexed, hend⟩ := lexed_of_tokenizeFrom h
  obtain ⟨htext, hlexed'⟩ := lexed_uncommented hlexed hk hs
  have hclears := clears_uncommented hend
  have hkind : ∀ t ∈ ts.map Token.uncommented, t.kind ≠ .directive := by
    intro t ht
    obtain ⟨u, hu, rfl⟩ := List.mem_map.1 ht
    exact hk u hu
  have hshielded : ∀ t ∈ ts.map Token.uncommented, t.Shielded := by
    intro t ht
    obtain ⟨u, hu, rfl⟩ := List.mem_map.1 ht
    exact hs u hu
  obtain ⟨htwice, -⟩ := lexed_uncommented hlexed' hkind hshielded
  rw [hsource, htext]
  refine ⟨_, rfl, hlexed', hclears.gap, hclears.clear, ?_⟩
  rw [htwice, uncommented_uncommented hlexed, uncommented_clear hclears.clear]

/-- **The sanitizer and the reader agree on what a comment is** where every token is one that the
sanitizer passes as it is: a text in which nothing but comments is found reads after sanitation as
it did before, with the same kinds, texts and places. -/
theorem tokenize_sanitize {source : String} {ts : List Token} (h : tokenize source = .ok ts)
    (hk : ∀ t ∈ ts, t.kind ≠ .directive) (hs : ∀ t ∈ ts, t.Shielded)
    (hnone : ∀ s ∈ substitutions.tail, s.misses false (uncommented source.toList) = true) :
    ∃ us, tokenize (sanitize source) = .ok us ∧
      us.map Token.ungapped = ts.map Token.ungapped := by
  obtain ⟨after, htext, hlexed, hgap, -, htwice⟩ := tokenize_uncommented h hk hs
  have hpass := pass_eq_uncommented hnone
  have hagain : pass (pass source.toList) = pass source.toList := by
    rw [hpass, pass_eq_uncommented (by rwa [htwice]), htwice]
  have hend : (splitGap after).2 = [] := by
    have hsplit := splitGap_of_gap hgap (show gapUnit? [] = none from rfl)
    rw [List.append_nil] at hsplit
    rw [hsplit]
  refine ⟨ts.map Token.uncommented, ?_, ?_⟩
  · rw [tokenize, sanitize, String.toList_ofList, sanitizeFrom_of_pass hagain, hpass, htext]
    exact tokenizeFrom_of_lexed hlexed hend
  · rw [List.map_map]
    rfl

end Sanitation

/-- A source with comments, and with the mark of a comment in a string. -/
def commentedSource : String :=
  "char *s = \"//\"; /* one\ntwo */ char c = '/'; // three"

theorem tokenize_sanitize_commentedSource : ∃ ts us, tokenize commentedSource = .ok ts ∧
    tokenize (Sanitation.sanitize commentedSource) = .ok us ∧
    us.map Token.ungapped = ts.map Token.ungapped := by
  have hall : ∃ ts, tokenize commentedSource = .ok ts ∧ (∀ t ∈ ts, t.kind ≠ .directive) ∧
      (∀ t ∈ ts, t.Shielded) ∧ ∀ s ∈ Sanitation.substitutions.tail,
        s.misses false (Sanitation.uncommented commentedSource.toList) = true := by decide +kernel
  obtain ⟨ts, hts, hk, hs, hnone⟩ := hall
  obtain ⟨us, hus, heq⟩ := Sanitation.tokenize_sanitize hts hk hs hnone
  exact ⟨ts, us, hts, hus, heq⟩

/-- A double quote between single quotes. The next double quote is taken for the end of a string,
and what the second string holds for a comment. -/
def quoteSource : String :=
  "char a = '\"'; char *b = \"//\";"

/-- That nothing but comments is found, before and after they are blanked, is not enough. -/
theorem not_tokenize_sanitize : ¬ ∀ (source : String) (ts : List Token),
    tokenize source = .ok ts → (∀ t ∈ ts, t.kind ≠ .directive) →
    (∀ s ∈ Sanitation.substitutions.tail, s.misses false source.toList = true ∧
      s.misses false (Sanitation.uncommented source.toList) = true) →
    ∃ us, tokenize (Sanitation.sanitize source) = .ok us ∧
      us.map Token.ungapped = ts.map Token.ungapped := by
  intro h
  have hall : ∃ ts, tokenize quoteSource = .ok ts ∧ (∀ t ∈ ts, t.kind ≠ .directive) ∧
      ∀ s ∈ Sanitation.substitutions.tail, s.misses false quoteSource.toList = true ∧
        s.misses false (Sanitation.uncommented quoteSource.toList) = true := by decide +kernel
  have herror : tokenize (Sanitation.sanitize quoteSource) = .error (.unterminated .string 1) := by
    decide +kernel
  obtain ⟨ts, hts, hk, hnone⟩ := hall
  obtain ⟨us, hus, -⟩ := h quoteSource ts hts hk hnone
  rw [herror] at hus
  cases hus

end WitnessReplay
