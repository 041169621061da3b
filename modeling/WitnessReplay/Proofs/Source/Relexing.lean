import WitnessReplay.Proofs.Source.Lexeme

/-!
# Reading back what was written

`Token.Lexed` says of a list of tokens that cutting a text at a place yields exactly these tokens,
whatever produced them: each gap is a gap, each lexeme ends where the next gap begins, and each
token knows its position. Tokenizing establishes it (`lexed_of_tokenizeFrom`) and is determined by
it (`tokenizeFrom_of_lexed`), so a text may be taken apart and put together in between.

What the printer does in between is to copy stretches of tokens to other places, with another gap in
front. `Copyable` collects what such a stretch has to satisfy and `Copyable.lexed_laid` is the
result: the stretch is read back token by token wherever it is printed, if a breaker follows.
-/

namespace WitnessReplay

namespace Cursor

/-- The place behind a token that begins behind its gap at a place. -/
def past (place : Cursor) (t : Token) : Cursor :=
  (place.skip t.gap.toList).pass ⟨t.kind, t.text.toList, []⟩

/-- The place behind some tokens. -/
def behind (place : Cursor) : List Token → Cursor
  | [] => place
  | t :: rest => (place.past t).behind rest

end Cursor

namespace Token

/-- Kind and text of a token: all that a reader of programs goes by. -/
def spelling (t : Token) : TokenKind × String :=
  (t.kind, t.text)

/-- Before some text, a token is what the text begins with. -/
def Stands (fresh : Bool) (t : Token) (after : List Char) : Prop :=
  gapUnit? (t.text.toList ++ after) = none ∧
    ∃ c cs, t.text.toList = c :: cs ∧ lexeme fresh c (cs ++ after) = .ok ⟨t.kind, c :: cs, after⟩

/-- Cutting a text at a place yields these tokens, and then `after` is left. -/
def Lexed (place : Cursor) : List Token → List Char → Prop
  | [], _ => True
  | t :: rest, after =>
    Gap t.gap.toList ∧
    t.start = (place.skip t.gap.toList).offset ∧
    t.line = (place.skip t.gap.toList).line ∧
    t.Stands (place.skip t.gap.toList).fresh ((spaced rest).toList ++ after) ∧
    Lexed (place.past t) rest after

/-- Two lists stand one behind the other if each stands where it should. -/
theorem lexed_append {place : Cursor} {ts us : List Token} {after : List Char} :
    Lexed place (ts ++ us) after ↔
      Lexed place ts ((spaced us).toList ++ after) ∧ Lexed (place.behind ts) us after := by
  induction ts generalizing place with
  | nil => simp [Lexed, Cursor.behind]
  | cons t ts ih =>
    simp only [List.cons_append, Lexed, Cursor.behind, ih, spaced_append, String.toList_append,
      List.append_assoc, and_assoc]

/-- Each token of a text stands before what is behind it there. -/
theorem Lexed.stands {place : Cursor} {ts : List Token} {after : List Char}
    (h : Lexed place ts after) : ∀ t ∈ ts, ∃ fresh y, t.Stands fresh y := by
  induction ts generalizing place with
  | nil => simp
  | cons t ts ih =>
    obtain ⟨-, -, -, hstands, hrest⟩ := h
    exact List.forall_mem_cons.2 ⟨⟨_, _, hstands⟩, ih hrest⟩

end Token

open Token

/-! ### Tokenizing -/

theorem tokenizeFrom_eq_nil {cs : List Char} (place : Cursor) (h : (splitGap cs).2 = []) :
    tokenizeFrom place cs = .ok [] := by
  rw [tokenizeFrom]
  split
  next => rfl
  next hc => rw [h] at hc; cases hc

/-- A gap and a lexeme behind it are a token, and the others come behind. -/
theorem tokenizeFrom_of_lexeme {cs g rest : List Char} {c : Char} {place : Cursor} {l : Lexeme}
    (hgap : splitGap cs = (g, c :: rest)) (hlex : lexeme (place.skip g).fresh c rest = .ok l) :
    tokenizeFrom place cs =
      match tokenizeFrom ((place.skip g).pass l) l.rest with
      | .error e => .error e
      | .ok tokens =>
        .ok (⟨l.kind, String.ofList g, String.ofList l.text, (place.skip g).offset,
          (place.skip g).line⟩ :: tokens) := by
  obtain ⟨rfl, h2⟩ := Prod.ext_iff.1 hgap
  rw [tokenizeFrom]
  split
  next h => rw [h2] at h; cases h
  next c' rest' h =>
    rw [h2] at h
    cases h
    split
    next hl => rw [hlex] at hl; cases hl
    next hl => rw [hlex] at hl; cases hl; rfl

/-- Tokens that a text is made of are what tokenizing yields. -/
theorem tokenizeFrom_of_lexed {place : Cursor} {ts : List Token} {after : List Char}
    (h : Lexed place ts after) (hend : (splitGap after).2 = []) :
    tokenizeFrom place ((spaced ts).toList ++ after) = .ok ts := by
  induction ts generalizing place with
  | nil => exact tokenizeFrom_eq_nil place hend
  | cons t ts ih =>
    obtain ⟨hgap, hstart, hline, ⟨hunit, c, cs, htext, hlex⟩, hrest⟩ := h
    have hcs : (spaced (t :: ts)).toList ++ after
        = t.gap.toList ++ (t.text.toList ++ ((spaced ts).toList ++ after)) := by
      simp [spaced]
    have hsplit := splitGap_of_gap hgap hunit
    rw [htext, List.cons_append] at hsplit
    rw [hcs, htext, List.cons_append, tokenizeFrom_of_lexeme hsplit hlex]
    have hover : (place.skip t.gap.toList).pass ⟨t.kind, c :: cs, (spaced ts).toList ++ after⟩
        = place.past t := by
      rw [Cursor.past, htext]
      rfl
    show (match tokenizeFrom (Cursor.pass _ _) _ with | .error e => _ | .ok tokens => _) = _
    rw [hover, ih hrest]
    rw [← htext, ← hstart, ← hline, String.ofList_toList, String.ofList_toList]

/-- A lexeme that is found behind a gap is the first token of a text, if the tokens behind it are
the others. -/
theorem Token.Lexed.cons {cs g rest after : List Char} {c : Char} {place : Cursor} {l : Lexeme}
    {ts : List Token} (hgap : splitGap cs = (g, c :: rest))
    (hlex : lexeme (place.skip g).fresh c rest = .ok l)
    (hrest : l.rest = (spaced ts).toList ++ after) (h : Lexed ((place.skip g).pass l) ts after) :
    let t : Token := ⟨l.kind, String.ofList g, String.ofList l.text, (place.skip g).offset,
      (place.skip g).line⟩
    cs = (spaced (t :: ts)).toList ++ after ∧ Lexed place (t :: ts) after := by
  -- the lexeme is not empty, so its first character is the one behind the gap
  have happ := lexeme_append hlex
  have hunit := gapUnit?_splitGap cs
  rw [hgap] at hunit
  obtain ⟨d, ds, hl⟩ := List.exists_cons_of_ne_nil (lexeme_ne_nil hlex)
  rw [hl, List.cons_append] at happ
  obtain ⟨rfl, hds⟩ := List.cons_eq_cons.1 happ
  refine ⟨?_, ⟨?_, ?_, ?_, ⟨?_, d, ds, ?_, ?_⟩, ?_⟩⟩
  · have hcs := splitGap_append cs
    rw [hgap, ← hds, hrest] at hcs
    exact hcs.symm.trans (by simp [spaced, hl])
  · have hne : (splitGap cs).2 ≠ [] := by
      rw [hgap]
      simp
    have hg := gap_splitGap hne
    rw [hgap] at hg
    rwa [String.toList_ofList]
  · rw [String.toList_ofList]
  · rw [String.toList_ofList]
  · rw [String.toList_ofList, ← hrest, hl, List.cons_append, hds]
    exact hunit
  · rw [String.toList_ofList, hl]
  · rw [String.toList_ofList, ← hrest, hds, ← hl]
    exact hlex
  · rw [Cursor.past, String.toList_ofList, String.toList_ofList]
    exact h

/-- A text that can be cut is made of the tokens that it is cut into, and a gap behind them. -/
theorem lexed_of_tokenizeFrom {place : Cursor} {cs : List Char} {ts : List Token}
    (h : tokenizeFrom place cs = .ok ts) :
    ∃ after, cs = (spaced ts).toList ++ after ∧ Lexed place ts after ∧
      (splitGap after).2 = [] := by
  rw [tokenizeFrom] at h
  split at h
  next hgap =>
    cases h
    exact ⟨cs, by simp [spaced], trivial, hgap⟩
  next c rest hgap =>
    split at h
    next => cases h
    next l hlex =>
      have := splitGap_shorter hgap (lexeme_length hlex)
      split at h
      next => cases h
      next tokens htokens =>
        cases h
        obtain ⟨after, hrest, hlexed, hend⟩ := lexed_of_tokenizeFrom htokens
        obtain ⟨hcs, hcons⟩ := hlexed.cons (Prod.ext rfl hgap) hlex hrest
        exact ⟨after, hcs, hcons, hend⟩
termination_by cs.length

/-- A text that cannot be cut is made of tokens, a gap behind them, and a lexeme that does not end.
-/
theorem lexed_of_tokenizeFrom_error {place : Cursor} {cs : List Char} {e : ParseError}
    (h : tokenizeFrom place cs = .error e) :
    ∃ ts after gap c rest what, cs = (spaced ts).toList ++ after ∧ Lexed place ts after ∧
      splitGap after = (gap, c :: rest) ∧
      lexeme ((place.behind ts).skip gap).fresh c rest = .error what ∧
      e = .unterminated what ((place.behind ts).skip gap).line := by
  rw [tokenizeFrom] at h
  split at h
  next => cases h
  next c rest hgap =>
    split at h
    next what hlex =>
      cases h
      exact ⟨[], cs, _, c, rest, what, by simp [spaced], trivial, Prod.ext rfl hgap, hlex, rfl⟩
    next l hlex =>
      have := splitGap_shorter hgap (lexeme_length hlex)
      split at h
      next e' he =>
        cases h
        obtain ⟨ts, after, gap, d, more, what, hrest, hlexed, hsplit, hfail, rfl⟩ :=
          lexed_of_tokenizeFrom_error he
        obtain ⟨hcs, hcons⟩ := hlexed.cons (Prod.ext rfl hgap) hlex hrest
        -- the token stops where the tokenizer goes on
        have hpast : place.past ⟨l.kind, String.ofList (splitGap cs).1, String.ofList l.text,
            (place.skip (splitGap cs).1).offset, (place.skip (splitGap cs).1).line⟩
              = (place.skip (splitGap cs).1).pass l := by
          rw [Cursor.past, String.toList_ofList, String.toList_ofList]
          rfl
        refine ⟨_, after, gap, d, more, what, hcs, hcons, hsplit, ?_, ?_⟩
        · rw [Cursor.behind, hpast]
          exact hfail
        · rw [Cursor.behind, hpast]
      next => cases h
termination_by cs.length

/-! ### Tokens at other places -/

namespace Token

/-- The first character of a token that stands somewhere is a number sign only where it marks a
directive; everything else that begins with one is excluded. -/
def Unmarked (t : Token) : Prop :=
  t.kind ≠ .directive → t.text.toList.head? ≠ some '#'

/-- The text of a directive does not ask for the next line. -/
def Ends (t : Token) : Prop :=
  t.kind = .directive → t.text.toList.getLast? ≠ some '\\'

theorem gapUnit?_eq_none {c : Char} {cs : List Char} (hs : isSpacing c = false)
    (hn : ¬ (c = '\\' ∧ cs.head? = some '\n')) (hl : ¬ (c = '/' ∧ cs.head? = some '/'))
    (hb : ¬ (c = '/' ∧ cs.head? = some '*')) : gapUnit? (c :: cs) = none := by
  rw [gapUnit?, if_neg (by simp [hs]), if_neg hn, if_neg hl, if_neg hb]

/-- Where no unit of a gap begins there is no white space and no line comment. -/
theorem of_gapUnit?_eq_none {c : Char} {cs : List Char} (h : gapUnit? (c :: cs) = none) :
    isSpacing c = false ∧ ¬ (c = '\\' ∧ cs.head? = some '\n') ∧
      ¬ (c = '/' ∧ cs.head? = some '/') := by
  rw [gapUnit?] at h
  split at h
  next => cases h
  next hs =>
    split at h
    next => cases h
    next hn =>
      split at h
      next => cases h
      next hl => exact ⟨by simpa using hs, hn, hl⟩

/-- Only a number sign where a line begins makes a directive. -/
theorem lexeme_directive {fresh : Bool} {c : Char} {cs text rest : List Char}
    (h : lexeme fresh c cs = .ok ⟨.directive, text, rest⟩) :
    c = '#' ∧ fresh = true ∧ text = c :: (splitDirective cs).1 ∧ rest = (splitDirective cs).2 := by
  have quoted {opening cs : List Char} {quote : Char}
      (h : quotedLexeme opening quote cs = .ok ⟨.directive, text, rest⟩) : False := by
    unfold quotedLexeme at h
    split at h
    next => split at h <;> cases h
    next => cases h
  rw [lexeme.eq_def] at h
  split at h
  next hc => cases h; exact ⟨hc.1, hc.2, rfl, rfl⟩
  split at h
  · split at h
    · split at h
      · exact (quoted h).elim
      · cases h
    · cases h
  split at h
  · cases h
  split at h
  · exact (quoted h).elim
  split at h <;> cases h

/-- A directive reaches to a line end, or to the end of the text. -/
theorem splitDirective_head? (cs : List Char) :
    (splitDirective cs).2 = [] ∨ (splitDirective cs).2.head? = some '\n' := by
  fun_induction splitDirective cs with
  | case1 => exact .inl rfl
  | case2 => exact .inr rfl
  | case3 => exact .inl rfl
  | case4 => exact .inr rfl
  | case5 => assumption
  | case6 => assumption

section Stands

variable {fresh fresh' : Bool} {t : Token} {x y z after : List Char}

theorem Stands.ne_nil (h : t.Stands fresh after) : t.text.toList ≠ [] := by
  obtain ⟨-, c, cs, htext, -⟩ := h
  rw [htext]
  simp

/-- A directive stands where a line begins, and up to the end of the line. -/
theorem Stands.of_directive (h : t.Stands fresh after) (hk : t.kind = .directive) :
    fresh = true ∧ ∃ cs, t.text.toList = '#' :: cs ∧
      splitDirective (cs ++ after) = (cs, after) := by
  obtain ⟨-, c, cs, htext, hlex⟩ := h
  rw [hk] at hlex
  obtain ⟨rfl, hf, h1, h2⟩ := lexeme_directive hlex
  injection h1 with _ h1
  exact ⟨hf, cs, htext, Prod.ext h1.symm h2.symm⟩

/-- A directive may be followed by any text that begins with a line end. -/
theorem Stands.directive (h : t.Stands fresh after) (hk : t.kind = .directive) (he : t.Ends)
    (z : List Char) : t.Stands true ('\n' :: z) := by
  obtain ⟨-, cs, htext, hsplit⟩ := h.of_directive hk
  have hlast : cs.getLast? ≠ some '\\' := by
    have := he hk
    rw [htext] at this
    cases cs with
    | nil => simp
    | cons d cs => simpa [List.getLast?_cons_cons] using this
  refine ⟨?_, '#', cs, htext, ?_⟩
  · rw [htext]
    exact gapUnit?_eq_none (by decide) (by simp) (by simp) (by simp)
  · rw [lexeme.eq_def, if_pos ⟨rfl, rfl⟩, splitDirective_change hsplit hlast z, hk]

/-- A token that stands somewhere is a lexeme, unless it is a directive. -/
theorem Stands.lexes (h : t.Stands fresh after) (hk : t.kind ≠ .directive) :
    Lexes t.kind t.text.toList after := by
  obtain ⟨-, c, cs, htext, hlex⟩ := h
  rw [htext]
  exact lexes_of_lexeme hk hlex

/-- A number sign that is no directive has something before it on its line. -/
theorem Stands.not_fresh (h : t.Stands fresh after) (hk : t.kind ≠ .directive)
    (hm : t.text.toList.head? = some '#') : fresh = false := by
  obtain ⟨-, c, cs, htext, hlex⟩ := h
  rw [htext] at hm
  obtain rfl : c = '#' := by simpa using hm
  refine Bool.eq_false_iff.2 fun hf => hk ?_
  rw [lexeme.eq_def, if_pos ⟨rfl, hf⟩] at hlex
  injection hlex with hlex
  injection hlex with hkind
  exact hkind.symm

/-- A token that is no directive stands before any other text that is cut off behind a stretch and
goes on with a character that does not join it. A single backslash is the exception: before a line
end it is no token. -/
theorem Stands.goOn {d : Char} {w : List Char} (h : t.Stands fresh (x ++ y))
    (hk : t.kind ≠ .directive) (hf : t.text.toList.head? = some '#' → fresh' = false)
    (hd : Neutral d) (hj : x = [] → joins t.kind t.text.toList d = false)
    (hb : x = [] → d = '\n' → t.text ≠ "\\") : t.Stands fresh' (x ++ d :: w) := by
  have hlexes := (h.lexes hk).change (w := w) hd hj
  obtain ⟨hunit, c, cs, htext, -⟩ := h
  rw [htext] at hlexes hf hunit
  refine ⟨?_, c, cs, htext, lexeme_of_lexes hlexes fun hc => ?_⟩
  · rw [htext]
    rw [List.cons_append] at hunit ⊢
    obtain ⟨hs, hn, hl⟩ := of_gapUnit?_eq_none hunit
    -- behind the first character stands what stood there, or the new character
    have hhead {e : Char} (hne : d ≠ e) (hold : (cs ++ (x ++ y)).head? ≠ some e) :
        (cs ++ (x ++ d :: w)).head? ≠ some e := by
      rw [← List.append_assoc] at hold ⊢
      cases hx : cs ++ x with
      | nil => simpa using hne
      | cons f v =>
        rw [hx] at hold
        exact hold
    refine gapUnit?_eq_none hs ?_ ?_ ?_
    · intro ⟨hback, hline⟩
      by_cases hx : cs = [] ∧ x = []
      · obtain ⟨rfl, rfl⟩ := hx
        refine hb rfl (Option.some.inj hline) (String.toList_inj.1 ?_)
        rw [htext, hback]
        rfl
      · refine hn ⟨hback, ?_⟩
        rw [← List.append_assoc] at hline ⊢
        cases hv : cs ++ x with
        | nil => exact absurd (List.append_eq_nil_iff.1 hv) hx
        | cons f v => rw [hv] at hline; exact hline
    · exact fun ⟨hslash, hnext⟩ =>
        hhead (hd.ne (p := "/=") (by decide) (by decide)) (fun h => hl ⟨hslash, h⟩) hnext
    · intro ⟨hslash, hnext⟩
      -- a comment that closes is a gap, and one that does not is no lexeme
      cases hlexes with
      | punctuation _ ht _ _ _ hcomment =>
        cases ht
        exact hcomment ⟨hslash, hnext⟩
      | word _ ht hc =>
        cases ht
        rw [hslash] at hc
        exact absurd hc (by decide)
      | number _ ht _ hd =>
        cases ht
        rw [hslash] at hd
        simp at hd
      | literal _ ht hq ho =>
        rcases ho with rfl | ⟨mark, hmark, rfl⟩
        · cases ht
          rw [hslash] at hq
          exact absurd hq (by decide)
        · cases ht
          rw [hslash] at hmark
          exact absurd hmark (by decide)
  · rw [hf (by rw [hc.1]; rfl)] at hc
    exact absurd hc.2 (by decide)

/-- A token that is no directive stands before any other text that goes on with a breaker. A single
backslash is the exception: before a line end it is no token. -/
theorem Stands.change (h : t.Stands fresh (x ++ y)) (hk : t.kind ≠ .directive) (hm : t.Unmarked)
    (hz : Breaks z) (hb : x = [] → z.head? = some '\n' → t.text ≠ "\\") :
    t.Stands fresh' (x ++ z) := by
  obtain ⟨d, w, rfl, hd⟩ := hz
  exact h.goOn hk (fun hhead => absurd hhead (hm hk)) (neutral_of_isBreaker hd)
    (fun _ => joins_eq_false (isWordPart_of_isBreaker d hd))
    fun hx hline => hb hx (by rw [hline]; rfl)

theorem toList_single (ht : t.text = "(" ∨ t.text = ")" ∨ t.text = ";") :
    ∃ c, (c = '(' ∨ c = ')' ∨ c = ';') ∧ t.text.toList = [c] := by
  rcases ht with ht | ht | ht
  · exact ⟨'(', .inl rfl, by rw [ht]; rfl⟩
  · exact ⟨')', .inr (.inl rfl), by rw [ht]; rfl⟩
  · exact ⟨';', .inr (.inr rfl), by rw [ht]; rfl⟩

/-- A parenthesis and a semicolon stand before any text. -/
theorem stands_single (hk : t.kind = .punctuation)
    (ht : t.text = "(" ∨ t.text = ")" ∨ t.text = ";") : t.Stands fresh after := by
  obtain ⟨c, hc, htext⟩ := toList_single ht
  refine ⟨?_, c, [], htext, by rw [lexeme_single hc, hk]; rfl⟩
  rw [htext]
  rcases hc with rfl | rfl | rfl <;>
    exact gapUnit?_eq_none (by decide) (by simp) (by simp) (by simp)

/-- Parentheses and semicolons are punctuation. -/
theorem Stands.kind_single (h : t.Stands fresh after)
    (ht : t.text = "(" ∨ t.text = ")" ∨ t.text = ";") : t.kind = .punctuation := by
  obtain ⟨-, c, cs, htext, hlex⟩ := h
  obtain ⟨d, hd, hdtext⟩ := toList_single ht
  rw [hdtext] at htext
  cases htext
  rw [lexeme_single hd] at hlex
  injection hlex with hlex
  injection hlex with hkind
  exact hkind.symm

/-- Whether a character begins punctuators and nothing else. -/
def isMark (c : Char) : Bool :=
  !(isWordStart c || c.isDigit || c == '.' || isQuote c || c == '#')

/-- A token that begins with a mark is punctuation: neither words nor numbers nor literals do. -/
theorem Stands.kind_of_isMark (h : t.Stands fresh after)
    (hm : t.text.toList.head?.any isMark = true) : t.kind = .punctuation := by
  by_cases hk : t.kind = .directive
  · obtain ⟨-, cs, htext, -⟩ := h.of_directive hk
    rw [htext] at hm
    have hm : isMark '#' = true := hm
    exact absurd hm (by decide)
  cases h.lexes hk with
  | @word c cs _ ht hc =>
    rw [ht] at hm
    have hm : isMark c = true := hm
    simp [isMark, hc] at hm
  | @number c cs _ ht _ hd =>
    rw [ht] at hm
    have hm : isMark c = true := hm
    rcases Bool.or_eq_true_iff.1 hd with hd | hd
    · simp [isMark, hd] at hm
    · simp [isMark, (Bool.and_eq_true_iff.1 hd).1] at hm
  | @literal opening body quote _ ht hq ho =>
    rcases ho with rfl | ⟨mark, hmark, rfl⟩
    · rw [ht] at hm
      have hm : isMark quote = true := hm
      simp [isMark, hq] at hm
    · rw [ht] at hm
      have hm : isMark mark = true := hm
      rcases isLiteralMark_cases hmark with rfl | rfl | rfl <;> exact absurd hm (by decide)
  | punctuation hk => exact hk

end Stands

/-- Whether only punctuators begin with a mark among some tokens. -/
def Lexical (ts : List Token) : Prop :=
  ∀ t ∈ ts, t.text.toList.head?.any isMark = true → t.kind = .punctuation

/-- Tokens that were read are lexical. -/
theorem lexical_of_tokenize {source : String} {ts : List Token} (h : tokenize source = .ok ts) :
    Lexical ts := by
  obtain ⟨after, -, hlexed, -⟩ := lexed_of_tokenizeFrom h
  intro t ht hm
  obtain ⟨fresh, behind, hstands⟩ := hlexed.stands t ht
  exact hstands.kind_of_isMark hm

/-- Tokens as they are found where they stand behind a place. -/
def located (place : Cursor) : List Token → List Token
  | [] => []
  | t :: rest =>
    { t with
      start := (place.skip t.gap.toList).offset
      line := (place.skip t.gap.toList).line } :: located (place.past t) rest

/-- Tokens with another gap in front of the first. -/
def regapped (g : String) : List Token → List Token
  | [] => []
  | t :: rest => { t with gap := g } :: rest

/-- A stretch of tokens that is copied behind a place, with a gap in front. -/
def laid (place : Cursor) (g : String) (ts : List Token) : List Token :=
  located place (regapped g ts)

@[simp] theorem spaced_located (place : Cursor) (ts : List Token) :
    spaced (located place ts) = spaced ts := by
  induction ts generalizing place with
  | nil => rfl
  | cons t ts ih =>
    show t.gap ++ t.text ++ spaced (located _ ts) = t.gap ++ t.text ++ spaced ts
    rw [ih]

@[simp] theorem spelling_located (place : Cursor) (ts : List Token) :
    (located place ts).map spelling = ts.map spelling := by
  induction ts generalizing place with
  | nil => rfl
  | cons t ts ih =>
    show spelling t :: (located _ ts).map spelling = spelling t :: ts.map spelling
    rw [ih]

@[simp] theorem spelling_laid (place : Cursor) (g : String) (ts : List Token) :
    (laid place g ts).map spelling = ts.map spelling := by
  rw [laid, spelling_located]
  cases ts <;> rfl

/-- Laid out anew, tokens are written with the gap that was given. -/
theorem spaced_laid (place : Cursor) (g : String) {ts : List Token} (hne : ts ≠ []) :
    spaced (laid place g ts) = g ++ verbatim ts := by
  rw [laid, spaced_located]
  cases ts with
  | nil => exact absurd rfl hne
  | cons t ts => simp [regapped, spaced, verbatim, String.append_assoc]

/-- What is copied reads as it did. -/
theorem verbatim_laid (place : Cursor) (g : String) (ts : List Token) :
    verbatim (laid place g ts) = verbatim ts := by
  cases ts with
  | nil => rfl
  | cons t ts =>
    show t.text ++ spaced (located _ ts) = t.text ++ spaced ts
    rw [spaced_located]

/-- A stretch of tokens of a text, fit to be copied. -/
structure Copyable (ts : List Token) : Prop where
  stood : ∃ place after, Lexed place ts after
  unmarked : ∀ t ∈ ts, t.Unmarked
  ends : ∀ t ∈ ts, t.Ends

namespace Copyable

/-- The front of what can be copied can be copied. -/
theorem left {ts us : List Token} (h : Copyable (ts ++ us)) : Copyable ts := by
  obtain ⟨place, after, hl⟩ := h.stood
  exact ⟨⟨place, _, (lexed_append.1 hl).1⟩, fun t ht => h.unmarked t (List.mem_append_left _ ht),
    fun t ht => h.ends t (List.mem_append_left _ ht)⟩

theorem right {ts us : List Token} (h : Copyable (ts ++ us)) : Copyable us := by
  obtain ⟨place, after, hl⟩ := h.stood
  exact ⟨⟨_, _, (lexed_append.1 hl).2⟩, fun t ht => h.unmarked t (List.mem_append_right _ ht),
    fun t ht => h.ends t (List.mem_append_right _ ht)⟩

end Copyable

/-- Tokens are not written as nothing. -/
theorem Lexed.spaced_ne_nil {place : Cursor} {ts : List Token} {y : List Char}
    (h : Lexed place ts y) (hne : ts ≠ []) : (spaced ts).toList ≠ [] := by
  cases ts with
  | nil => exact absurd rfl hne
  | cons t ts =>
    obtain ⟨-, -, -, hstands, -⟩ := h
    have := hstands.ne_nil
    simp [spaced, this]

/-- A token of a stretch stands where the stretch is cut off behind it and goes on with a
breaker. -/
theorem Stands.before {fresh fresh' : Bool} {t : Token} {ts : List Token} {y z : List Char}
    (h : t.Stands fresh ((spaced ts).toList ++ y)) (hm : t.Unmarked) (he : t.Ends) (hz : Breaks z)
    (hne : ts ≠ [] → (spaced ts).toList ≠ []) (hf : t.kind = .directive → fresh' = true)
    (hlast : ts = [] → t.kind ≠ .directive ∧ (z.head? = some '\n' → t.text ≠ "\\")) :
    t.Stands fresh' ((spaced ts).toList ++ z) := by
  by_cases hk : t.kind = .directive
  · have hts : ts ≠ [] := fun hts => (hlast hts).1 hk
    -- the line end behind a directive belongs to the gap of the next token
    obtain ⟨-, cs, -, hsplit⟩ := h.of_directive hk
    have hhead := splitDirective_head? (cs ++ ((spaced ts).toList ++ y))
    rw [hsplit] at hhead
    obtain ⟨d, w, hw⟩ := List.exists_cons_of_ne_nil (hne hts)
    rw [hw] at hhead ⊢
    obtain rfl : d = '\n' := by simpa using hhead
    rw [hf hk]
    exact h.directive hk he (w ++ z)
  · refine h.change hk hm hz fun hnil => ?_
    have hts : ts = [] := Decidable.byContradiction fun hts => hne hts hnil
    exact (hlast hts).2

/-- What a list of tokens has to satisfy to be read back at a place before some text: it begins with
a directive only where a line begins, and ends with none. -/
structure Fits (place : Cursor) (ts : List Token) (z : List Char) : Prop where
  first : ∀ t ∈ ts.head?, t.kind = .directive → (place.skip t.gap.toList).fresh = true
  last : ∀ t ∈ ts.getLast?, t.kind ≠ .directive ∧ (z.head? = some '\n' → t.text ≠ "\\")

/-- What is behind the first token fits wherever the token stands, for whether a line begins there
is up to the token. -/
theorem Lexed.fits {place place' : Cursor} {ts : List Token} {y z : List Char}
    (h : Lexed place ts y) (hfresh : place.fresh = place'.fresh)
    (hlast : ∀ t ∈ ts.getLast?, t.kind ≠ .directive ∧ (z.head? = some '\n' → t.text ≠ "\\")) :
    Fits place' ts z := by
  refine ⟨fun t ht hk => ?_, hlast⟩
  cases ts with
  | nil => cases ht
  | cons u us =>
    obtain rfl : u = t := by simpa using ht
    have := (h.2.2.2.1.of_directive hk).1
    rw [Cursor.skip, hfresh] at this
    exact this

theorem getLast?_of_cons {t u : Token} {ts : List Token} (h : u ∈ ts.getLast?) :
    u ∈ (t :: ts).getLast? := by
  cases ts with
  | nil => cases h
  | cons v vs => rwa [List.getLast?_cons_cons]

/-- Tokens are read back at any place, if they stood one behind the other and a breaker follows. -/
theorem Lexed.located {place place' : Cursor} {ts : List Token} {y z : List Char}
    (h : Lexed place ts y) (hm : ∀ t ∈ ts, t.Unmarked) (he : ∀ t ∈ ts, t.Ends) (hz : Breaks z)
    (hfits : Fits place' ts z) : Lexed place' (located place' ts) z := by
  induction ts generalizing place place' with
  | nil => trivial
  | cons t ts ih =>
    obtain ⟨hgap, -, -, hstands, hrest⟩ := h
    refine ⟨hgap, rfl, rfl, ?_, ih hrest (fun u hu => hm u (List.mem_cons_of_mem _ hu))
        (fun u hu => he u (List.mem_cons_of_mem _ hu))
        (hrest.fits rfl fun u hu => hfits.last u (getLast?_of_cons hu))⟩
    rw [spaced_located]
    exact hstands.before (hm t (by simp)) (he t (by simp)) hz hrest.spaced_ne_nil
      (hfits.first t rfl) fun hnil => hfits.last t (by rw [hnil]; rfl)

/-- **A stretch of tokens is read back wherever it is printed**, with any gap in front, if a breaker
follows. -/
theorem Copyable.lexed_laid {ts : List Token} {g : String} {z : List Char} (h : Copyable ts)
    (hg : Gap g.toList) (hz : Breaks z) {place : Cursor} (hfits : Fits place (regapped g ts) z) :
    Lexed place (laid place g ts) z := by
  obtain ⟨place₀, y, hl⟩ := h.stood
  cases ts with
  | nil => trivial
  | cons t ts =>
    obtain ⟨-, -, -, hstands, hrest⟩ := hl
    refine ⟨hg, rfl, rfl, ?_, hrest.located (fun u hu => h.unmarked u (List.mem_cons_of_mem _ hu))
        (fun u hu => h.ends u (List.mem_cons_of_mem _ hu)) hz
        (hrest.fits rfl fun u hu => hfits.last u (getLast?_of_cons hu))⟩
    rw [spaced_located]
    refine hstands.before (h.unmarked t (by simp)) (h.ends t (by simp)) hz hrest.spaced_ne_nil
      (hfits.first _ rfl) fun hnil => ?_
    subst hnil
    exact hfits.last { t with gap := g } rfl

end Token

end WitnessReplay
