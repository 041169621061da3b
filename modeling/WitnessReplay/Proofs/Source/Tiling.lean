import WitnessReplay.Proofs.Source.Octets

/-!
# What a text is made of

`tokenize` forgets nothing and makes nothing up. Where it succeeds, the tokens lie in the text one
behind the other, and what is left of the text is `Filling`: blanks, continued line ends and
comments. Where it fails, it has read tokens up to a comment or literal that does not end
(`LeftOpen`), and names the line on which that begins.

What filling is, and what it is for a comment or literal not to end, is said here in terms of the
text alone: a comment ends with the first closing mark in it, and a literal with the first quote
that no backslash escapes. The functions that split a text are shown to mean that
(`of_splitComment_eq_some`, `splitLiteral_of_body`).

The bytes of the text are read along the way by `SourceText.scan`, which cannot leave the text or
cut a character, so the result `tokenize_lossless_or_open` is about both.
-/

namespace WitnessReplay

open Text Token

/-! ### Between the tokens -/

/-- A single piece of what stands between tokens, with the text behind it. -/
inductive Filler : List Char → List Char → Prop
  | blank {c : Char} {after : List Char} (hc : c ∈ [' ', '\t', '\r', '\n', '\x0b', '\x0c']) :
      Filler [c] after
  | continued {after : List Char} : Filler ['\\', '\n'] after
  /-- A comment to the end of its line. -/
  | line {body after : List Char} (hbody : '\n' ∉ body)
      (hend : after = [] ∨ after.head? = some '\n') : Filler ('/' :: '/' :: body) after
  /-- A comment to its first closing mark. -/
  | block {body after : List Char} (hbody : ¬ ['*', '/'] <:+: body ++ ['*']) :
      Filler ('/' :: '*' :: (body ++ ['*', '/'])) after

/-- Such pieces one behind the other, with the text behind them. -/
inductive Filling : List Char → List Char → Prop
  | nil {after : List Char} : Filling [] after
  | cons {unit more after : List Char} (hunit : Filler unit (more ++ after))
      (hmore : Filling more after) : Filling (unit ++ more) after

/-- A comment that closes does so at the first closing mark. -/
theorem of_splitComment_eq_some {cs body after : List Char}
    (h : splitComment cs = some (body, after)) :
    ∃ inner, body = inner ++ ['*', '/'] ∧ ¬ ['*', '/'] <:+: inner ++ ['*'] := by
  induction cs generalizing body with
  | nil => cases h
  | cons c cs ih =>
    rw [splitComment_cons] at h
    split at h
    next hclose =>
      cases h
      exact ⟨[], rfl, by decide⟩
    next hclose =>
      obtain ⟨⟨body', after'⟩, hsplit, heq⟩ := Option.map_eq_some_iff.1 h
      cases heq
      obtain ⟨inner, rfl, hinner⟩ := ih hsplit
      refine ⟨c :: inner, rfl, ?_⟩
      rw [List.cons_append, List.infix_cons_iff, not_or]
      refine ⟨?_, hinner⟩
      intro hprefix
      obtain ⟨hstar, hslash⟩ := mark_prefix_cons.1 hprefix
      -- the slash would stand behind the star in the text too
      refine hclose ⟨hstar, ?_⟩
      rw [← splitComment_append hsplit]
      cases inner with
      | nil => cases hslash
      | cons d inner => exact hslash

/-- A block comment that is not closed has no end in it. -/
theorem of_splitComment_eq_none {cs : List Char} (h : splitComment cs = none) :
    ¬ ['*', '/'] <:+: cs := by
  induction cs with
  | nil => decide
  | cons c cs ih =>
    rw [splitComment_cons] at h
    split at h
    next => cases h
    next hclose =>
      rw [List.infix_cons_iff, not_or]
      refine ⟨?_, ih (Option.map_eq_none_iff.1 h)⟩
      rwa [mark_prefix_cons]

theorem filler_of_gapUnit? {cs unit after : List Char} (h : gapUnit? cs = some (unit, after)) :
    Filler unit after := by
  cases gapUnit_of_eq_some h with
  | @blank c _ hc =>
    refine .blank ?_
    simpa [isSpacing, or_assoc] using hc
  | continued => exact .continued
  | line hbody hend =>
    refine .line hbody ?_
    cases after with
    | nil => exact .inl rfl
    | cons d after => exact .inr (congrArg some (hend d rfl))
  | block hbody =>
    obtain ⟨inner, rfl, hinner⟩ := of_splitComment_eq_some hbody
    exact .block hinner

theorem filling_splitGap (cs : List Char) : Filling (splitGap cs).1 (splitGap cs).2 := by
  fun_induction splitGap cs with
  | case1 => exact .nil
  | case2 cs unit after hunit _ ih =>
    refine .cons ?_ ih
    rw [splitGap_append]
    exact filler_of_gapUnit? hunit

/-- What separates tokens is filling before every text. -/
theorem Gap.filling {gap : List Char} (h : Gap gap) (after : List Char) : Filling gap after := by
  induction h with
  | nil => exact .nil
  | @blank c g hc _ ih =>
    show Filling ([c] ++ g) after
    refine .cons (.blank ?_) ih
    simpa [isSpacing, or_assoc] using hc
  | continued _ ih => exact .cons .continued ih
  | @line body g hbody _ ih =>
    show Filling (('/' :: '/' :: body) ++ (['\n'] ++ g)) after
    exact .cons (.line hbody (.inr rfl)) (.cons (.blank (by decide)) ih)
  | @block body g hbody _ ih =>
    obtain ⟨inner, rfl, hinner⟩ := of_splitComment_eq_some hbody
    exact .cons (.block hinner) ih

/-! ### Literals -/

/-- What stands between the quotes of a literal. A backslash takes the next character with it,
whatever that is. -/
inductive LiteralBody (quote : Char) : List Char → Prop
  | nil : LiteralBody quote []
  | plain {c : Char} {body : List Char} (hquote : c ≠ quote) (hescape : c ≠ '\\') (hline : c ≠ '\n')
      (hbody : LiteralBody quote body) : LiteralBody quote (c :: body)
  | escape {c : Char} {body : List Char} (hbody : LiteralBody quote body) :
      LiteralBody quote ('\\' :: c :: body)

/-- A literal is read as far as the quote behind its body. -/
theorem splitLiteral_of_body {quote : Char} {body : List Char} (hq : isQuote quote = true)
    (h : LiteralBody quote body) (after : List Char) :
    splitLiteral quote (body ++ quote :: after) = some (body ++ [quote], after) := by
  induction h with
  | nil => exact splitLiteral_close hq after
  | @plain c body hquote hescape hline _ ih =>
    rw [List.cons_append, splitLiteral_cons hq hescape, if_neg hline, if_neg hquote, ih]
    rfl
  | @escape c body _ ih =>
    rw [List.cons_append, List.cons_append, splitLiteral_escape, ih]
    rfl

/-! ### What does not end -/

/-- A text begins with a comment or literal that does not end. -/
inductive LeftOpen : Enclosure → List Char → Prop
  | comment {rest : List Char} (hrest : ¬ ['*', '/'] <:+: rest) :
      LeftOpen .comment ('/' :: '*' :: rest)
  | literal {mark rest : List Char} {quote : Char} (hquote : quote = '"' ∨ quote = '\'')
      (hmark : mark = [] ∨ mark = ['L'] ∨ mark = ['u'] ∨ mark = ['U'])
      (hrest : ∀ body after, LiteralBody quote body → rest ≠ body ++ quote :: after) :
      LeftOpen (if quote = '"' then .string else .character) (mark ++ quote :: rest)

/-- A literal that is not closed is left open, whether it has a mark or not. -/
theorem leftOpen_of_quotedLexeme {mark cs : List Char} {quote : Char} {what : Enclosure}
    (hmark : mark = [] ∨ mark = ['L'] ∨ mark = ['u'] ∨ mark = ['U'])
    (hq : isQuote quote = true) (h : quotedLexeme (mark ++ [quote]) quote cs = .error what) :
    LeftOpen what (mark ++ quote :: cs) := by
  unfold quotedLexeme at h
  split at h
  next => cases h
  next hnone =>
    cases h
    refine .literal (isQuote_cases hq) hmark ?_
    rintro body after hbody rfl
    rw [splitLiteral_of_body hq hbody] at hnone
    cases hnone

/-- What cannot be read as a lexeme is left open. -/
theorem leftOpen_of_lexeme {fresh : Bool} {c : Char} {cs : List Char} {what : Enclosure}
    (hunit : gapUnit? (c :: cs) = none) (h : lexeme fresh c cs = .error what) :
    LeftOpen what (c :: cs) := by
  rw [lexeme.eq_def] at h
  split at h
  · cases h
  split at h
  · cases cs with
    | nil => cases h
    | cons quote body =>
      dsimp only at h
      split at h
      next hliteral =>
        obtain ⟨hletter, hq⟩ := Bool.and_eq_true_iff.1 hliteral
        have hmark : [c] = [] ∨ [c] = ['L'] ∨ [c] = ['u'] ∨ [c] = ['U'] := by
          rcases isLiteralMark_cases hletter with rfl | rfl | rfl <;> simp
        exact leftOpen_of_quotedLexeme hmark hq h
      next => cases h
  split at h
  · cases h
  split at h
  next hq =>
    have hmark : ([] : List Char) = [] ∨ [] = ['L'] ∨ [] = ['u'] ∨ [] = ['U'] := .inl rfl
    exact leftOpen_of_quotedLexeme hmark hq h
  split at h
  next hopen =>
    cases h
    obtain ⟨rfl, hhead⟩ := hopen
    obtain ⟨rest, rfl⟩ := List.head?_eq_some_iff.1 hhead
    exact .comment (of_splitComment_eq_none (splitComment_of_gapUnit? hunit))
  next => cases h

/-! ### Tokens in their text -/

/-- From an offset on a text is made of these tokens, with filling before, between and behind
them. -/
inductive Tiles : Nat → List Token → List Char → Prop
  | nil {offset : Nat} {gap : List Char} (hgap : Filling gap []) : Tiles offset [] gap
  | cons {offset : Nat} {gap rest : List Char} {t : Token} {ts : List Token}
      (hgap : Filling gap (t.text.toList ++ rest)) (htext : t.text ≠ "")
      (hstart : t.start = offset + byteSize gap) (hrest : Tiles t.stop ts rest) :
      Tiles offset (t :: ts) (gap ++ t.text.toList ++ rest)

/-- A token stops behind its bytes. -/
theorem Token.stop_eq (t : Token) : t.stop = t.start + byteSize t.text.toList := by
  unfold stop
  rw [← utf8ByteSize_ofList, String.ofList_toList]

/-- **Tokens that were read tile their text**, from the offset where the reading began. -/
theorem tiles_of_lexed {place : Cursor} {ts : List Token} {after : List Char}
    (h : Lexed place ts after) (hend : (splitGap after).2 = []) :
    Tiles place.offset ts ((spaced ts).toList ++ after) := by
  induction ts generalizing place with
  | nil =>
    have hgap := filling_splitGap after
    have happend := splitGap_append after
    rw [hend, List.append_nil] at happend
    rw [hend, happend] at hgap
    exact .nil hgap
  | cons t ts ih =>
    obtain ⟨hgap, hstart, -, hstands, hrest⟩ := h
    have htext : t.text ≠ "" := fun hnil => hstands.ne_nil (by rw [hnil]; rfl)
    have hstop : (place.past t).offset = t.stop := by
      rw [t.stop_eq, hstart]
      rfl
    have hbehind := ih hrest
    rw [hstop] at hbehind
    have hcs : (spaced (t :: ts)).toList ++ after
        = t.gap.toList ++ t.text.toList ++ ((spaced ts).toList ++ after) := by
      simp [spaced]
    rw [hcs]
    exact .cons (hgap.filling _) htext hstart hbehind

namespace Tiles

variable {offset : Nat} {ts : List Token} {cs : List Char}

/-- Tokens of a tiling are not empty. -/
theorem start_lt_stop (h : Tiles offset ts cs) : ∀ t ∈ ts, t.start < t.stop := by
  induction h with
  | nil => exact List.forall_mem_nil _
  | @cons offset gap rest t ts _ htext _ _ ih =>
    refine List.forall_mem_cons.2 ⟨?_, ih⟩
    have hpos : t.text.utf8ByteSize ≠ 0 := by
      intro hzero
      exact htext (String.utf8ByteSize_eq_zero_iff.1 hzero)
    unfold stop
    omega

/-- They start behind the offset. -/
theorem le_start (h : Tiles offset ts cs) : ∀ t ∈ ts, offset ≤ t.start := by
  induction h with
  | nil => exact List.forall_mem_nil _
  | @cons offset gap rest t ts _ _ hstart _ ih =>
    refine List.forall_mem_cons.2 ⟨by omega, ?_⟩
    intro u hu
    have hle := ih u hu
    unfold stop at hle
    omega

/-- A token ends before the next begins. -/
theorem pairwise_stop_le_start (h : Tiles offset ts cs) : ts.Pairwise (·.stop ≤ ·.start) := by
  induction h with
  | nil => exact .nil
  | cons _ _ _ hrest ih => exact .cons hrest.le_start ih

theorem pairwise_start_lt (h : Tiles offset ts cs) : ts.Pairwise (·.start < ·.start) := by
  refine h.pairwise_stop_le_start.imp_of_mem ?_
  intro t u ht _ hle
  have hlt := h.start_lt_stop t ht
  omega

/-- A token is a stretch of the text, and its offset counts the bytes before it. -/
theorem exists_before (h : Tiles offset ts cs) : ∀ t ∈ ts, ∃ before rest,
    cs = before ++ t.text.toList ++ rest ∧ t.start = offset + byteSize before := by
  induction h with
  | nil => exact List.forall_mem_nil _
  | @cons offset gap rest t ts _ _ hstart _ ih =>
    refine List.forall_mem_cons.2 ⟨⟨gap, rest, rfl, hstart⟩, ?_⟩
    intro u hu
    obtain ⟨before, rest', rfl, hbefore⟩ := ih u hu
    refine ⟨gap ++ t.text.toList ++ before, rest', by simp, ?_⟩
    rw [hbefore, t.stop_eq, hstart, byteSize_append, byteSize_append]
    omega

end Tiles

/-- Between characters is a valid position. -/
theorem isValid_byteSize {source : String} {before rest : List Char}
    (h : source.toList = before ++ rest) : String.Pos.Raw.IsValid source ⟨byteSize before⟩ := by
  rw [String.Pos.Raw.isValid_iff_exists_append]
  refine ⟨String.ofList before, String.ofList rest, ?_, ?_⟩
  · rw [← String.ofList_append, ← h, String.ofList_toList]
  · rw [String.rawEndPos, utf8ByteSize_ofList]

/-- Tokens lie in their text without loss. -/
structure LaidOut (source : String) (ts : List Token) : Prop where
  nonempty : ∀ t ∈ ts, t.start < t.stop
  increasing : ts.Pairwise (·.start < ·.start)
  disjoint : ts.Pairwise (·.stop ≤ ·.start)
  /-- No token begins or ends inside of a character. -/
  boundaries : ∀ t ∈ ts, String.Pos.Raw.IsValid source ⟨t.start⟩ ∧
    String.Pos.Raw.IsValid source ⟨t.stop⟩
  /-- The text is made of the tokens and of filling. -/
  tiles : Tiles 0 ts source.toList

/-- Tokens that tile a source are laid out in it. -/
theorem Tiles.laidOut {source : String} {ts : List Token} (h : Tiles 0 ts source.toList) :
    LaidOut source ts where
  nonempty := h.start_lt_stop
  increasing := h.pairwise_start_lt
  disjoint := h.pairwise_stop_le_start
  boundaries := by
    intro t ht
    obtain ⟨before, rest, hsource, hstart⟩ := h.exists_before t ht
    rw [Nat.zero_add] at hstart
    have hstop : t.stop = byteSize (before ++ t.text.toList) := by
      rw [t.stop_eq, hstart, byteSize_append]
    rw [hstop, hstart]
    refine ⟨?_, isValid_byteSize hsource⟩
    rw [List.append_assoc] at hsource
    exact isValid_byteSize hsource
  tiles := h

/-- Behind tokens and filling a text goes on, on a line, with a comment or literal that does not
end. -/
def EndsOpen (source : String) (what : Enclosure) (line : Nat) : Prop :=
  ∃ ts gap rest, source.toList = (spaced ts).toList ++ gap ++ rest ∧
    Lexed .start ts (gap ++ rest) ∧ Filling gap rest ∧
    line = ((spaced ts).toList ++ gap).count '\n' + 1 ∧ LeftOpen what rest

theorem line_behind (place : Cursor) (ts : List Token) :
    (place.behind ts).line = place.line + (spaced ts).toList.count '\n' := by
  induction ts generalizing place with
  | nil => rfl
  | cons t ts ih =>
    rw [Cursor.behind, ih]
    show place.line + t.gap.toList.count '\n' + t.text.toList.count '\n' + _ = _
    simp only [spaced, String.toList_append, List.count_append]
    omega

/-- A source without tokens ends in something that is left open, on the line that is reported. -/
theorem endsOpen_of_tokenize {source : String} {e : ParseError} (h : tokenize source = .error e) :
    ∃ what line, e = .unterminated what line ∧ EndsOpen source what line := by
  obtain ⟨ts, after, gap, c, rest, what, hsource, hlexed, hgap, hlex, rfl⟩ :=
    lexed_of_tokenizeFrom_error h
  refine ⟨what, _, rfl, ts, gap, c :: rest, ?_, ?_, ?_, ?_, ?_⟩
  · have happend := splitGap_append after
    rw [hgap] at happend
    rw [hsource, ← happend, List.append_assoc]
  · have happend := splitGap_append after
    rw [hgap] at happend
    rwa [happend]
  · have hfilling := filling_splitGap after
    rwa [hgap] at hfilling
  · rw [List.count_append]
    show (Cursor.start.behind ts).line + gap.count '\n' = _
    rw [line_behind]
    show 1 + _ + _ = _
    omega
  · have hunit := gapUnit?_splitGap after
    rw [hgap] at hunit
    exact leftOpen_of_lexeme hunit hlex

/-- **A text is read without loss, or it ends inside of a comment or literal.** The scan of its
bytes finds the same tokens or fails for the same reason, and for no other. -/
theorem tokenize_lossless_or_open (source : String) :
    (∃ ts, tokenize source = .ok ts ∧
      (SourceText.mk (encode source.toList)).scan = .ok (ts.map span) ∧ LaidOut source ts) ∨
    (∃ what line, tokenize source = .error (.unterminated what line) ∧
      (SourceText.mk (encode source.toList)).scan = .error (.text (.unterminated what line)) ∧
      EndsOpen source what line) := by
  have hscan := SourceText.scan_encode source
  cases h : tokenize source with
  | ok ts =>
    rw [h] at hscan
    obtain ⟨after, hsource, hlexed, hend⟩ := lexed_of_tokenizeFrom h
    have htiles := tiles_of_lexed hlexed hend
    rw [← hsource] at htiles
    exact .inl ⟨ts, rfl, hscan, htiles.laidOut⟩
  | error e =>
    rw [h] at hscan
    obtain ⟨what, line, rfl, hopen⟩ := endsOpen_of_tokenize h
    exact .inr ⟨what, line, rfl, hscan, hopen⟩

end WitnessReplay
