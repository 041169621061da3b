import WitnessReplay.Source.Error
import WitnessReplay.Source.Token

/-!
# Reading tokens

`tokenize` cuts a C text into tokens. Between two lexemes stands a gap, a sequence of blanks,
continued line ends and comments (`gapUnit?` takes one of them off). A lexeme is then found by its
first characters: a directive where a line begins with a number sign, a word, a number, a quoted
literal, or the longest punctuator.

Each function here splits a text in two, what it took and what remains, and has a lemma that the
two halves are the text. The lemmas give the length argument by which `tokenizeFrom` ends, and
they make tokenizing lossless: nothing that was read is forgotten.
-/

namespace WitnessReplay

/-! ### Gaps -/

/-- Whether a character separates lexemes. -/
def isSpacing (c : Char) : Bool :=
  c == ' ' || c == '\t' || c == '\r' || c == '\n' || c == '\x0b' || c == '\x0c'

/-- Splits a text behind the first mark that closes a block comment. -/
def splitComment : List Char → Option (List Char × List Char)
  | [] => none
  | [_] => none
  | a :: b :: rest =>
    if a = '*' ∧ b = '/' then some ([a, b], rest)
    else (splitComment (b :: rest)).map fun (body, after) => (a :: body, after)

/-- The body of a comment and the text behind it are the text. -/
theorem splitComment_append {cs body after : List Char}
    (h : splitComment cs = some (body, after)) : body ++ after = cs := by
  fun_induction splitComment cs generalizing body with
  | case1 => cases h
  | case2 => cases h
  | case3 a b rest _ => cases h; rfl
  | case4 a b rest _ ih =>
    obtain ⟨p, hp, heq⟩ := Option.map_eq_some_iff.1 h
    obtain ⟨body', after'⟩ := p
    cases heq
    simp [ih hp]

/-- Takes the blank, continued line end or comment off a text that begins with one. A block
comment that is never closed is none. -/
def gapUnit? : List Char → Option (List Char × List Char)
  | [] => none
  | c :: rest =>
    if isSpacing c then some ([c], rest)
    else if c = '\\' ∧ rest.head? = some '\n' then some ([c, '\n'], rest.tail)
    else if c = '/' ∧ rest.head? = some '/' then
      some (c :: rest.takeWhile (· ≠ '\n'), rest.dropWhile (· ≠ '\n'))
    else if c = '/' ∧ rest.head? = some '*' then
      (splitComment rest.tail).map fun (body, after) => (c :: '*' :: body, after)
    else none

theorem cons_tail_of_head? {c : Char} {cs : List Char} (h : cs.head? = some c) :
    c :: cs.tail = cs := by
  cases cs with
  | nil => cases h
  | cons d cs => cases h; rfl

/-- A unit of a gap and the text behind it are the text. -/
theorem gapUnit?_append {cs unit after : List Char} (h : gapUnit? cs = some (unit, after)) :
    unit ++ after = cs := by
  unfold gapUnit? at h
  split at h
  · cases h
  next c rest =>
    split at h
    · cases h; rfl
    split at h
    next hc => cases h; simp [cons_tail_of_head? hc.2]
    split at h
    next => cases h; simp
    split at h
    next hc =>
      obtain ⟨p, hp, heq⟩ := Option.map_eq_some_iff.1 h
      obtain ⟨body, after'⟩ := p
      cases heq
      simp [splitComment_append hp, cons_tail_of_head? hc.2]
    · cases h

theorem gapUnit?_ne_nil {cs unit after : List Char} (h : gapUnit? cs = some (unit, after)) :
    unit ≠ [] := by
  unfold gapUnit? at h
  split at h
  · cases h
  next c rest =>
    split at h
    · cases h; simp
    split at h
    · cases h; simp
    split at h
    · cases h; simp
    split at h
    · obtain ⟨p, -, heq⟩ := Option.map_eq_some_iff.1 h
      cases heq
      simp
    · cases h

/-- Behind a unit of a gap the text is shorter. -/
theorem gapUnit?_length {cs unit after : List Char} (h : gapUnit? cs = some (unit, after)) :
    after.length < cs.length := by
  have hne := List.length_pos_iff.2 (gapUnit?_ne_nil h)
  have := congrArg List.length (gapUnit?_append h)
  simp only [List.length_append] at this
  omega

/-- Splits a text behind the gap that it begins with. -/
def splitGap (cs : List Char) : List Char × List Char :=
  match h : gapUnit? cs with
  | none => ([], cs)
  | some (unit, after) =>
    have := gapUnit?_length h
    (unit ++ (splitGap after).1, (splitGap after).2)
termination_by cs.length

/-- A gap and the text behind it are the text. -/
theorem splitGap_append (cs : List Char) : (splitGap cs).1 ++ (splitGap cs).2 = cs := by
  fun_induction splitGap cs with
  | case1 cs h => rfl
  | case2 cs unit after h _ ih => simp [ih, gapUnit?_append h]

/-! ### Lexemes -/

/-- Whether a character can begin a word. -/
def isWordStart (c : Char) : Bool :=
  c.isAlpha || c == '_' || c == '$' || 0x80 ≤ c.toNat

/-- Whether a character can continue a word. -/
def isWordPart (c : Char) : Bool :=
  isWordStart c || c.isDigit

/-- Splits a text at the end of the directive that it begins with: at the first line end that no
backslash continues. -/
def splitDirective : List Char → List Char × List Char
  | [] => ([], [])
  | [c] => if c = '\n' then ([], [c]) else ([c], [])
  | a :: b :: rest =>
    if a = '\n' then ([], a :: b :: rest)
    else if a = '\\' ∧ b = '\n' then
      (a :: b :: (splitDirective rest).1, (splitDirective rest).2)
    else (a :: (splitDirective (b :: rest)).1, (splitDirective (b :: rest)).2)

/-- A directive and the text behind it are the text. -/
theorem splitDirective_append (cs : List Char) :
    (splitDirective cs).1 ++ (splitDirective cs).2 = cs := by
  fun_induction splitDirective cs <;> simp_all

/-- Splits a text at the end of the number that it goes on with, where `last` is the character
before. A sign belongs to a number right behind the letter of an exponent. -/
def splitNumber (last : Char) : List Char → List Char × List Char
  | [] => ([], [])
  | c :: rest =>
    if isWordPart c || c == '.' ||
        ((c == '+' || c == '-') && (last == 'e' || last == 'E' || last == 'p' || last == 'P')) then
      (c :: (splitNumber c rest).1, (splitNumber c rest).2)
    else ([], c :: rest)

/-- A number and the text behind it are the text. -/
theorem splitNumber_append (last : Char) (cs : List Char) :
    (splitNumber last cs).1 ++ (splitNumber last cs).2 = cs := by
  fun_induction splitNumber last cs <;> simp_all

/-- Splits a text behind the quote that closes a literal. A backslash escapes the character behind
it, a line end included; otherwise a literal does not go on past its line. -/
def splitLiteral (quote : Char) : List Char → Option (List Char × List Char)
  | [] => none
  | [c] => if c = quote then some ([c], []) else none
  | a :: b :: rest =>
    -- a quote cannot be reached on a later line
    if a = '\n' then none
    else if a = '\\' then
      (splitLiteral quote rest).map fun (body, after) => (a :: b :: body, after)
    else if a = quote then some ([a], b :: rest)
    else (splitLiteral quote (b :: rest)).map fun (body, after) => (a :: body, after)

/-- The body of a literal and the text behind it are the text. -/
theorem splitLiteral_append {quote : Char} {cs body after : List Char}
    (h : splitLiteral quote cs = some (body, after)) : body ++ after = cs := by
  fun_induction splitLiteral quote cs generalizing body with
  | case1 => cases h
  | case2 => cases h; rfl
  | case3 => cases h
  | case4 => cases h
  | case5 b rest _ ih =>
    obtain ⟨p, hp, heq⟩ := Option.map_eq_some_iff.1 h
    cases heq
    simp [ih hp]
  | case6 => cases h; rfl
  | case7 a b rest _ _ _ ih =>
    obtain ⟨p, hp, heq⟩ := Option.map_eq_some_iff.1 h
    cases heq
    simp [ih hp]

/-- The punctuators of more than one character, longer ones first. -/
def longPunctuators : List String :=
  ["...", "<<=", ">>=", "->", "++", "--", "<<", ">>", "<=", ">=", "==", "!=", "&&", "||", "+=",
    "-=", "*=", "/=", "%=", "&=", "^=", "|=", "##"]

/-- How many characters the punctuator has that a text begins with. A character that begins no
punctuator stands for itself. -/
def punctuatorLength (cs : List Char) : Nat :=
  match longPunctuators.find? fun p => p.toList.isPrefixOf cs with
  | some p => p.length
  | none => 1

/-- A lexeme at the front of a text, and the rest of the text. -/
structure Lexeme where
  kind : TokenKind
  text : List Char
  rest : List Char

/-- The literal that a text begins with, behind `opening`, which ends in its quote. -/
def quotedLexeme (opening : List Char) (quote : Char) (cs : List Char) : Except Enclosure Lexeme :=
  match splitLiteral quote cs with
  | some (body, rest) =>
    .ok ⟨if quote = '"' then .string else .character, opening ++ body, rest⟩
  | none => .error (if quote = '"' then .string else .character)

/-- Whether a character quotes a literal. -/
def isQuote (c : Char) : Bool :=
  c == '"' || c == '\''

/-- Whether a character before a quote belongs to the literal. -/
def isLiteralMark (c : Char) : Bool :=
  c == 'L' || c == 'u' || c == 'U'

/-- The lexeme of a text that begins with the character `c` and goes on with `cs`; `fresh` says
that nothing but blanks stands before it on its line. Where a block comment opens it is one that
does not close, for a closed one would belong to the gap. -/
def lexeme (fresh : Bool) (c : Char) (cs : List Char) : Except Enclosure Lexeme :=
  -- a number sign anywhere else on a line is a punctuator
  if c = '#' ∧ fresh then
    .ok ⟨.directive, c :: (splitDirective cs).1, (splitDirective cs).2⟩
  else if isWordStart c then
    match cs with
    | quote :: body =>
      -- only a mark of one letter joins the literal; the word `u8` does not
      if isLiteralMark c && isQuote quote then quotedLexeme [c, quote] quote body
      else .ok ⟨.word, c :: cs.takeWhile isWordPart, cs.dropWhile isWordPart⟩
    | [] => .ok ⟨.word, [c], []⟩
  else if c.isDigit || (c == '.' && cs.head?.any Char.isDigit) then
    .ok ⟨.number, c :: (splitNumber c cs).1, (splitNumber c cs).2⟩
  else if isQuote c then
    quotedLexeme [c] c cs
  else if c = '/' ∧ cs.head? = some '*' then
    .error .comment
  else
    .ok ⟨.punctuation, (c :: cs).take (punctuatorLength (c :: cs)),
      (c :: cs).drop (punctuatorLength (c :: cs))⟩

theorem quotedLexeme_append {opening cs : List Char} {quote : Char} {l : Lexeme}
    (h : quotedLexeme opening quote cs = .ok l) : l.text ++ l.rest = opening ++ cs := by
  unfold quotedLexeme at h
  split at h
  next body rest hs =>
    cases h
    simp [splitLiteral_append hs]
  · cases h

/-- A lexeme and the text behind it are the text. -/
theorem lexeme_append {fresh : Bool} {c : Char} {cs : List Char} {l : Lexeme}
    (h : lexeme fresh c cs = .ok l) : l.text ++ l.rest = c :: cs := by
  unfold lexeme at h
  split at h
  · cases h; simp [splitDirective_append]
  split at h
  · split at h
    · split at h
      · exact quotedLexeme_append h
      · cases h; simp
    · cases h; simp
  split at h
  · cases h; simp [splitNumber_append]
  split at h
  · exact quotedLexeme_append h
  split at h
  · cases h
  · cases h; exact List.take_append_drop ..

/-- A punctuator has one character at least. -/
theorem punctuatorLength_pos (cs : List Char) : 0 < punctuatorLength cs := by
  unfold punctuatorLength
  split
  next p hp =>
    have hall : ∀ q ∈ longPunctuators, 0 < q.length := by decide
    exact hall p (List.mem_of_find?_eq_some hp)
  · exact Nat.one_pos

theorem quotedLexeme_ne_nil {opening cs : List Char} {quote : Char} {l : Lexeme}
    (ho : opening ≠ []) (h : quotedLexeme opening quote cs = .ok l) : l.text ≠ [] := by
  unfold quotedLexeme at h
  split at h
  · cases h; simp [ho]
  · cases h

theorem lexeme_ne_nil {fresh : Bool} {c : Char} {cs : List Char} {l : Lexeme}
    (h : lexeme fresh c cs = .ok l) : l.text ≠ [] := by
  unfold lexeme at h
  split at h
  · cases h; simp
  split at h
  · split at h
    · split at h
      · exact quotedLexeme_ne_nil (by simp) h
      · cases h; simp
    · cases h; simp
  split at h
  · cases h; simp
  split at h
  · exact quotedLexeme_ne_nil (by simp) h
  split at h
  · cases h
  · cases h
    have := punctuatorLength_pos (c :: cs)
    simp; omega

/-- Behind a lexeme the text is shorter, so the tokenizer comes to an end. -/
theorem lexeme_length {fresh : Bool} {c : Char} {cs : List Char} {l : Lexeme}
    (h : lexeme fresh c cs = .ok l) : l.rest.length ≤ cs.length := by
  have hne := List.length_pos_iff.2 (lexeme_ne_nil h)
  have := congrArg List.length (lexeme_append h)
  simp only [List.length_append, List.length_cons] at this
  omega

/-! ### Texts -/

/-- A place in a text: its byte offset, its line, and whether only blanks stand before it on the
line. A line also counts as begun anew behind a line end inside a comment or a literal. -/
structure Cursor where
  offset : Nat
  line : Nat
  fresh : Bool
deriving DecidableEq, Repr

namespace Cursor

/-- Where a text begins. -/
def start : Cursor := ⟨0, 1, true⟩

/-- The place behind a gap. -/
def skip (place : Cursor) (gap : List Char) : Cursor :=
  ⟨place.offset + Text.byteSize gap, place.line + gap.count '\n', place.fresh || gap.contains '\n'⟩

/-- The place behind a lexeme. -/
def pass (place : Cursor) (l : Lexeme) : Cursor :=
  ⟨place.offset + Text.byteSize l.text, place.line + l.text.count '\n',
    l.kind != .directive && l.text.contains '\n'⟩

end Cursor

/-- What is left behind the first character after a gap is shorter than the text. -/
theorem splitGap_shorter {cs rest after : List Char} {c : Char} (h : (splitGap cs).2 = c :: rest)
    (hr : after.length ≤ rest.length) : after.length < cs.length := by
  have := congrArg List.length (splitGap_append cs)
  simp only [h, List.length_append, List.length_cons] at this
  omega

/-- The tokens of a text that continues at a place. -/
def tokenizeFrom (place : Cursor) (cs : List Char) : Except ParseError (List Token) :=
  let here := place.skip (splitGap cs).1
  match hgap : (splitGap cs).2 with
  | [] => .ok []
  | c :: rest =>
    match hlex : lexeme here.fresh c rest with
    | .error what => .error (.unterminated what here.line)
    | .ok l =>
      have := splitGap_shorter hgap (lexeme_length hlex)
      match tokenizeFrom (here.pass l) l.rest with
      | .error e => .error e
      | .ok tokens =>
        .ok (⟨l.kind, String.ofList (splitGap cs).1, String.ofList l.text, here.offset, here.line⟩
          :: tokens)
termination_by cs.length

/-- The tokens of a C text, or the literal or comment that does not end. -/
def tokenize (source : String) : Except ParseError (List Token) :=
  tokenizeFrom .start source.toList

end WitnessReplay
