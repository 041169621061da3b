import WitnessReplay.Proofs.Source.Relexing
import WitnessReplay.Source.Position

/-!
# Scanning bytes

`tokenize` takes a text apart character by character. `SourceText.scan` goes over its bytes instead
and keeps only where each lexeme lies: it looks at the byte at an offset, moves the offset on, and
starts again. Nothing in its form keeps the offset inside of the text or between characters, so
everything that may go wrong is an error here: a byte read `outside` of the text, a text cut
`inside` of a character, and a loop that is `stuck`.

Every loop of the scanner is `SourceText.loop` with its own step. For each of them there is a lemma
that it passes exactly what the function for lists takes off the bytes that are left, and fails
where that function fails. So none of the other errors comes up. All of this is about bytes; what
the bytes have to do with characters is not needed here.

A byte is looked at as the character of its number, which the classes of characters are asked
about.
-/

namespace WitnessReplay

/-- A lexeme as it lies in the bytes of a text: its kind, the offset of its first byte, the offset
behind its last byte, and its line. -/
structure Span where
  kind : TokenKind
  start : Nat
  stop : Nat
  line : Nat
deriving DecidableEq, Repr

/-- Why a scan stops. -/
inductive ScanError
  /-- The text is at fault. -/
  | text (e : ParseError)
  /-- A byte at this offset is read, and there is none. -/
  | outside (offset : Nat)
  /-- The text is cut at this offset, which is inside of a character. -/
  | inside (offset : Nat)
  /-- A loop goes round at this offset without getting on. -/
  | stuck (offset : Nat)
deriving DecidableEq, Repr

namespace Cursor

/-- The place some bytes further on. -/
def advance (place : Cursor) (n : Nat) : Cursor :=
  { place with offset := place.offset + n }

/-- The place some bytes further on, with the line ends among them. -/
def walk (place : Cursor) (bs : List Char) : Cursor :=
  ⟨place.offset + bs.length, place.line + bs.count '\n', place.fresh || bs.contains '\n'⟩

/-- The same place, taken for one inside of a line. -/
def begun (place : Cursor) : Cursor :=
  { place with fresh := false }

/-- The place behind a lexeme of these bytes. -/
def cross (place : Cursor) (kind : TokenKind) (bs : List Char) : Cursor :=
  ⟨place.offset + bs.length, place.line + bs.count '\n', kind != .directive && bs.contains '\n'⟩

@[simp] theorem walk_nil (place : Cursor) : place.walk [] = place := by
  simp [walk]

@[simp] theorem walk_walk (place : Cursor) (xs ys : List Char) :
    (place.walk xs).walk ys = place.walk (xs ++ ys) := by
  simp [walk, Nat.add_assoc, Bool.or_assoc]

/-- Bytes without a line end are passed by moving the offset. -/
theorem advance_length (place : Cursor) {bs : List Char} (h : '\n' ∉ bs) :
    place.advance bs.length = place.walk bs := by
  have hcount : bs.count '\n' = 0 := List.count_eq_zero.2 h
  simp [advance, walk, hcount, h]

/-- A mark of two bytes is passed by moving the offset. -/
theorem advance_mark (place : Cursor) {a b : Char} (ha : '\n' ≠ a) (hb : '\n' ≠ b) :
    place.advance 2 = place.walk [a, b] := by
  have hmark : '\n' ∉ [a, b] := by simp [ha, hb]
  exact place.advance_length hmark

/-- Walking on inside of a line over a lexeme that is no directive comes to behind it. -/
theorem walk_begun (place : Cursor) {kind : TokenKind} (hk : kind ≠ .directive) (bs : List Char) :
    place.begun.walk bs = place.cross kind bs := by
  have hkind : (kind != .directive) = true := by simpa using hk
  rw [cross, hkind]
  simp [walk, begun]

theorem begun_walk_begun (place : Cursor) (bs : List Char) :
    (place.begun.walk bs).begun = place.cross .directive bs := rfl

end Cursor

namespace SourceText

variable (t : SourceText)

/-! ### Bytes -/

/-- The byte at an offset, if there is one. -/
def peek? (offset : Nat) : Option Char :=
  t.bytes[offset]?.map Char.ofUInt8

/-- The byte at an offset. -/
def read (offset : Nat) : Except ScanError Char :=
  match t.peek? offset with
  | some b => .ok b
  | none => .error (.outside offset)

/-- The bytes from an offset on. -/
def after (offset : Nat) : List Char :=
  (t.bytes.drop offset).map Char.ofUInt8

/-- Whether an offset is between characters: at an end of the text, or before a byte that does not
continue a character. -/
def isBoundary (offset : Nat) : Bool :=
  offset == 0 || offset == t.size ||
    (t.peek? offset).any fun b => decide (b.toNat < 0x80) || decide (0xC0 ≤ b.toNat)

/-- The bytes from an offset on, which has to be between characters. -/
def cut (offset : Nat) : Except ScanError (List Char) :=
  if t.isBoundary offset then .ok (t.after offset) else .error (.inside offset)

/-- Passes a byte, and the line that it may end. -/
def bump (place : Cursor) : Except ScanError Cursor := do
  let b ← t.read place.offset
  if b = '\n' then return ⟨place.offset + 1, place.line + 1, true⟩
  else return place.advance 1

/-! ### Loops -/

/-- Repeats a step until it is done. -/
def loop (step : Cursor → Except ScanError (ForInStep Cursor)) (place : Cursor) :
    Except ScanError Cursor :=
  match step place with
  | .error e => .error e
  | .ok (.done next) => .ok next
  | .ok (.yield next) =>
    if place.offset < next.offset ∧ next.offset ≤ t.size then loop step next
    else .error (.stuck place.offset)
termination_by t.size - place.offset

/-- Passes bytes as long as they pass a test. -/
def skipWhile (test : Char → Bool) : Cursor → Except ScanError Cursor :=
  t.loop fun place =>
    match t.peek? place.offset with
    | some b => if test b then .ok (.yield (place.advance 1)) else .ok (.done place)
    | none => .ok (.done place)

/-- Passes a block comment that was opened on a line, behind its opening mark. -/
def skipComment (opened : Nat) : Cursor → Except ScanError Cursor :=
  t.loop fun place =>
    match t.peek? place.offset with
    | none => .error (.text (.unterminated .comment opened))
    | some b =>
      if b = '*' ∧ t.peek? (place.offset + 1) = some '/' then .ok (.done (place.advance 2))
      else return .yield (← t.bump place)

/-- Passes what stands between two lexemes. -/
def skipGap : Cursor → Except ScanError Cursor :=
  t.loop fun place =>
    match t.peek? place.offset with
    | none => .ok (.done place)
    | some b =>
      if isSpacing b then return .yield (← t.bump place)
      else if b = '\\' ∧ t.peek? (place.offset + 1) = some '\n' then
        return .yield (← t.bump (← t.bump place))
      else if b = '/' ∧ t.peek? (place.offset + 1) = some '/' then
        return .yield (← t.skipWhile (· ≠ '\n') place)
      else if b = '/' ∧ t.peek? (place.offset + 1) = some '*' then
        return .yield (← t.skipComment place.line (place.advance 2))
      else .ok (.done place)

/-- Passes a directive, with the lines that it is continued on. -/
def skipDirective : Cursor → Except ScanError Cursor :=
  t.loop fun place =>
    match t.peek? place.offset with
    | none => .ok (.done place)
    | some b =>
      if b = '\n' then .ok (.done place)
      else if b = '\\' ∧ t.peek? (place.offset + 1) = some '\n' then
        return .yield (← t.bump (← t.bump place))
      else return .yield (← t.bump place)

/-- Whether a byte is the sign of an exponent, by the byte before it. -/
def isExponentSign (b : Char) (offset : Nat) : Except ScanError Bool :=
  if (b == '+' || b == '-') && decide (0 < offset) then do
    let last ← t.read (offset - 1)
    return last == 'e' || last == 'E' || last == 'p' || last == 'P'
  else .ok false

/-- Passes a number. -/
def skipNumber : Cursor → Except ScanError Cursor :=
  t.loop fun place =>
    match t.peek? place.offset with
    | none => .ok (.done place)
    | some b => do
      if isWordPart b || b == '.' || (← t.isExponentSign b place.offset) then
        return .yield (place.advance 1)
      else return .done place

/-- Passes the rest of a literal that was opened on a line, behind its quote. -/
def skipQuoted (quote : Char) (opened : Nat) : Cursor → Except ScanError Cursor :=
  let what := if quote = '"' then .string else .character
  t.loop fun place =>
    match t.peek? place.offset with
    | none => .error (.text (.unterminated what opened))
    | some b =>
      if b = '\n' then .error (.text (.unterminated what opened))
      else if b = '\\' then do
        let next ← t.bump place
        -- a backslash may be the last byte of the text
        if (t.peek? next.offset).isSome then return .yield (← t.bump next)
        else return .yield next
      else if b = quote then .ok (.done (place.advance 1))
      else .ok (.yield (place.advance 1))

/-! ### Lexemes -/

/-- Passes a literal that begins on a line, from its quote on. -/
def scanQuoted (opened : Nat) (place : Cursor) : Except ScanError (TokenKind × Cursor) := do
  let quote ← t.read place.offset
  let next ← t.skipQuoted quote opened (place.advance 1)
  return (if quote = '"' then .string else .character, next)

/-- Passes the lexeme at a place, which begins with the byte `b`. -/
def scanLexeme (here : Cursor) (b : Char) : Except ScanError (TokenKind × Cursor) :=
  if b = '#' ∧ here.fresh then
    return (.directive, (← t.skipDirective here.begun).begun)
  else if isWordStart b then
    if isLiteralMark b && (t.peek? (here.offset + 1)).any isQuote then
      t.scanQuoted here.line (here.begun.advance 1)
    else return (.word, ← t.skipWhile isWordPart here.begun)
  else if b.isDigit || (b == '.' && (t.peek? (here.offset + 1)).any Char.isDigit) then
    return (.number, ← t.skipNumber here.begun)
  else if isQuote b then t.scanQuoted here.line here.begun
  else return (.punctuation, here.begun.advance (punctuatorLength (← t.cut here.offset)))

/-- The next lexeme behind a place, and the place behind it. -/
def scanToken (place : Cursor) : Except ScanError (Option (Span × Cursor)) := do
  let here ← t.skipGap place
  match t.peek? here.offset with
  | none => return none
  | some b =>
    let (kind, next) ← t.scanLexeme here b
    return some (⟨kind, here.offset, next.offset, here.line⟩, next)

/-- The lexemes behind a place. -/
def scanFrom (place : Cursor) : Except ScanError (List Span) :=
  match t.scanToken place with
  | .error e => .error e
  | .ok none => .ok []
  | .ok (some (span, next)) =>
    if place.offset < next.offset ∧ next.offset ≤ t.size then
      match scanFrom next with
      | .error e => .error e
      | .ok spans => .ok (span :: spans)
    else .error (.stuck place.offset)
termination_by t.size - place.offset

/-- The lexemes of a text. -/
def scan : Except ScanError (List Span) :=
  t.scanFrom .start

/-! ### What a single step sees -/

section Bytes

variable {t} {offset : Nat} {place next : Cursor} {b : Char} {xs rest : List Char}
  {step : Cursor → Except ScanError (ForInStep Cursor)}

/-- The byte at an offset is the first one behind it. -/
theorem peek?_eq (t : SourceText) (offset : Nat) : t.peek? offset = (t.after offset).head? := by
  unfold peek? after
  rw [List.head?_map, List.head?_drop]

/-- What stands behind some bytes. -/
theorem after_add (xs : List Char) (h : t.after offset = xs ++ rest) :
    t.after (offset + xs.length) = rest := by
  have hdrop := congrArg (List.drop xs.length) h
  rw [List.drop_left] at hdrop
  rw [← hdrop]
  unfold after
  rw [← List.map_drop, List.drop_drop]

theorem after_succ (h : t.after offset = b :: rest) : t.after (offset + 1) = rest :=
  after_add [b] h

theorem peek?_of_after (h : t.after offset = b :: rest) : t.peek? offset = some b := by
  rw [peek?_eq, h]
  rfl

theorem peek?_succ (h : t.after offset = b :: rest) : t.peek? (offset + 1) = rest.head? := by
  rw [peek?_eq, after_succ h]

theorem peek?_of_nil (h : t.after offset = []) : t.peek? offset = none := by
  rw [peek?_eq, h]
  rfl

/-- The bytes in front of others are in the text. -/
theorem add_length_le (h : t.after offset = xs ++ rest) (hne : xs ≠ []) :
    offset + xs.length ≤ t.size := by
  have hpos := List.length_pos_iff.2 hne
  have hlength := congrArg List.length h
  unfold after at hlength
  rw [List.length_map, List.length_drop, List.length_append] at hlength
  unfold size
  omega

theorem read_of_after (h : t.after offset = b :: rest) : t.read offset = .ok b := by
  unfold read
  rw [peek?_of_after h]

/-- One step walks over one byte. -/
theorem bump_of_after (h : t.after place.offset = b :: rest) :
    t.bump place = .ok (place.walk [b]) := by
  have hread := read_of_after h
  unfold bump
  rw [hread]
  show (if b = '\n' then Except.ok _ else Except.ok _) = _
  split
  next hb =>
    subst hb
    simp [Cursor.walk]
  next hb =>
    rw [← place.advance_length (by simpa using Ne.symm hb)]
    rfl

/-- Two bytes are passed one after the other. -/
theorem bump_walk {c : Char} (h : t.after place.offset = b :: c :: rest) :
    t.bump (place.walk [b]) = .ok (place.walk [b, c]) := by
  rw [bump_of_after (after_succ h), Cursor.walk_walk]
  rfl

/-- A loop ends where its step fails. -/
theorem loop_error {e : ScanError} (h : step place = .error e) :
    t.loop step place = .error e := by
  rw [loop, h]

theorem loop_done (h : step place = .ok (.done next)) : t.loop step place = .ok next := by
  rw [loop, h]

/-- A step that passes some bytes is repeated behind them. -/
theorem loop_yield (xs : List Char) (hafter : t.after place.offset = xs ++ rest) (hne : xs ≠ [])
    (hnext : next.offset = place.offset + xs.length) (h : step place = .ok (.yield next)) :
    t.loop step place = t.loop step next := by
  have hpos := List.length_pos_iff.2 hne
  have hle := add_length_le hafter hne
  rw [loop, h]
  exact if_pos ⟨by omega, by omega⟩

end Bytes

end SourceText

/-! ### Splitting a list by its head -/

/-- Puts some characters in front of the first part of a split list. -/
def prepend (front : List Char) (parts : List Char × List Char) : List Char × List Char :=
  (front ++ parts.1, parts.2)

section Lists

variable {c quote : Char} {cs : List Char}

/-- A list begins with a mark of two characters. -/
theorem mark_prefix_cons {a b : Char} {cs : List Char} :
    [a, b] <+: c :: cs ↔ c = a ∧ cs.head? = some b := by
  rw [List.cons_prefix_cons, eq_comm, List.head?_eq_some_iff]
  refine and_congr_right fun _ => exists_congr fun _ => ?_
  exact eq_comm

/-- One character of a block comment. -/
theorem splitComment_cons (c : Char) (cs : List Char) :
    splitComment (c :: cs) =
      if c = '*' ∧ cs.head? = some '/' then some (['*', '/'], cs.tail)
      else (splitComment cs).map (prepend [c]) := by
  cases cs with
  | nil =>
    rw [if_neg (by simp)]
    rfl
  | cons d cs =>
    rw [splitComment]
    by_cases hc : c = '*' ∧ d = '/'
    · rw [if_pos hc, if_pos (by simpa using hc), hc.1, hc.2]
      rfl
    · rw [if_neg hc, if_neg (by simpa using hc)]
      rfl

/-- A block comment that is not part of a gap does not close. -/
theorem splitComment_of_gapUnit? {cs : List Char} (h : gapUnit? ('/' :: '*' :: cs) = none) :
    splitComment cs = none := by
  rw [gapUnit?, if_neg (by decide), if_neg (by simp), if_neg (by simp), if_pos ⟨rfl, rfl⟩] at h
  exact Option.map_eq_none_iff.1 h

/-- One character of a directive. -/
theorem splitDirective_cons (c : Char) (cs : List Char) :
    splitDirective (c :: cs) =
      if c = '\n' then ([], c :: cs)
      else if c = '\\' ∧ cs.head? = some '\n' then
        prepend [c, '\n'] (splitDirective cs.tail)
      else prepend [c] (splitDirective cs) := by
  cases cs with
  | nil =>
    rw [splitDirective, if_neg (show ¬ (c = '\\' ∧ [].head? = some '\n') by simp)]
    rfl
  | cons d cs =>
    rw [splitDirective]
    by_cases hc : c = '\\' ∧ d = '\n'
    · rw [if_pos hc, if_pos (show c = '\\' ∧ (d :: cs).head? = some '\n' by simpa using hc), hc.2]
      rfl
    · rw [if_neg hc, if_neg (show ¬ (c = '\\' ∧ (d :: cs).head? = some '\n') by simpa using hc)]
      rfl

/-- A backslash hides the character behind it. -/
theorem splitLiteral_escape (quote b : Char) (cs : List Char) :
    splitLiteral quote ('\\' :: b :: cs) = (splitLiteral quote cs).map (prepend ['\\', b]) := by
  rw [splitLiteral, if_neg (by simp), if_pos rfl]
  rfl

theorem splitLiteral_cons (hq : isQuote quote = true) (hc : c ≠ '\\') (cs : List Char) :
    splitLiteral quote (c :: cs) =
      if c = '\n' then none
      else if c = quote then some ([c], cs)
      else (splitLiteral quote cs).map (prepend [c]) := by
  have hline : quote ≠ '\n' := by
    rcases isQuote_cases hq with rfl | rfl <;> decide
  cases cs with
  | nil =>
    by_cases hn : c = '\n'
    · subst hn
      rw [if_pos rfl, splitLiteral, if_neg hline.symm]
    · rw [splitLiteral, if_neg hn]
      rfl
  | cons d cs =>
    rw [splitLiteral, if_neg hc]
    rfl

/-! No word, number or punctuator has a line end in it, so the scanner passes them without counting
lines. -/

/-- No word goes over the end of a line. -/
theorem not_mem_takeWhile_isWordPart (cs : List Char) : '\n' ∉ cs.takeWhile isWordPart := by
  intro hmem
  have := List.mem_takeWhile_imp hmem
  exact absurd this (by decide)

theorem not_mem_splitNumber (last : Char) (cs : List Char) : '\n' ∉ (splitNumber last cs).1 := by
  intro hmem
  obtain ⟨last', hgoes⟩ := mem_splitNumber hmem
  exact absurd hgoes (by simp [numberGoesOn]; decide)

/-- A character of a punctuator is its first one or stands in the table. -/
theorem mem_take_punctuatorLength {d : Char}
    (h : d ∈ (c :: cs).take (punctuatorLength (c :: cs))) :
    d = c ∨ ∃ p ∈ longPunctuators, d ∈ p.toList := by
  unfold punctuatorLength at h
  split at h
  next p hp =>
    have hprefix := List.find?_some hp
    rw [List.isPrefixOf_iff_prefix] at hprefix
    rw [← String.length_toList, ← List.prefix_iff_eq_take.1 hprefix] at h
    exact .inr ⟨p, List.mem_of_find?_eq_some hp, h⟩
  next => exact .inl (by simpa using h)

theorem not_mem_take_punctuatorLength (hc : '\n' ≠ c) (cs : List Char) :
    '\n' ∉ (c :: cs).take (punctuatorLength (c :: cs)) := by
  intro hmem
  obtain rfl | ⟨p, hp, hline⟩ := mem_take_punctuatorLength hmem
  · exact hc rfl
  · exact absurd (longPunctuators_not_breaker p hp _ hline) (by decide)

end Lists

namespace SourceText

/-! ### What the loops pass -/

section Loops

variable {t : SourceText} {place : Cursor} {rest : List Char}

/-- Passing over bytes that pass a test. By induction on what is left, which the loop shortens by
one byte a round. -/
theorem skipWhile_eq (test : Char → Bool) (h : t.after place.offset = rest) :
    t.skipWhile test place = .ok (place.advance (rest.takeWhile test).length) := by
  induction rest generalizing place with
  | nil =>
    refine loop_done ?_
    simp only [peek?_of_nil h]
    rfl
  | cons b rest ih =>
    by_cases hb : test b = true
    · have hadvance : (place.advance 1).advance (rest.takeWhile test).length
          = place.advance ((b :: rest).takeWhile test).length := by
        simp [Cursor.advance, hb, Nat.add_assoc, Nat.add_comm 1]
      rw [← hadvance, ← ih (after_succ h)]
      refine loop_yield [b] h (by simp) rfl ?_
      simp only [peek?_of_after h]
      exact if_pos hb
    · rw [List.takeWhile_cons_of_neg hb]
      refine loop_done ?_
      simp only [peek?_of_after h]
      exact if_neg hb

/-- A block comment is passed as far as its closing mark, and one without a closing mark is the
fault of the text. -/
theorem skipComment_eq (opened : Nat) (h : t.after place.offset = rest) :
    t.skipComment opened place =
      match splitComment rest with
      | some (body, _) => .ok (place.walk body)
      | none => .error (.text (.unterminated .comment opened)) := by
  induction rest generalizing place with
  | nil =>
    refine loop_error ?_
    simp only [peek?_of_nil h]
  | cons b rest ih =>
    rw [splitComment_cons]
    by_cases hb : b = '*' ∧ rest.head? = some '/'
    · rw [if_pos hb]
      refine loop_done ?_
      simp only [peek?_of_after h, peek?_succ h]
      rw [if_pos hb, place.advance_mark (a := '*') (b := '/') (by decide) (by decide)]
    · rw [if_neg hb]
      have hstep : t.skipComment opened place = t.skipComment opened (place.walk [b]) := by
        refine loop_yield [b] h (by simp) rfl ?_
        simp only [peek?_of_after h, peek?_succ h, bump_of_after h]
        exact if_neg hb
      rw [hstep, ih (after_succ h)]
      cases splitComment rest with
      | none => rfl
      | some p => simp [prepend]

/-- A directive is passed as far as the end of its last line. -/
theorem skipDirective_eq (h : t.after place.offset = rest) :
    t.skipDirective place = .ok (place.walk (splitDirective rest).1) := by
  -- a continued line end takes two bytes at once
  induction hn : rest.length using Nat.strong_induction_on generalizing place rest with
  | _ n ih =>
    cases rest with
    | nil =>
      refine loop_done ?_
      simp only [peek?_of_nil h]
      simp [splitDirective]
    | cons b rest =>
      rw [List.length_cons] at hn
      rw [splitDirective_cons]
      by_cases hline : b = '\n'
      · rw [if_pos hline]
        refine loop_done ?_
        simp only [peek?_of_after h]
        rw [if_pos hline]
        simp
      rw [if_neg hline]
      by_cases hcont : b = '\\' ∧ rest.head? = some '\n'
      · rw [if_pos hcont]
        obtain ⟨rfl, hhead⟩ := hcont
        obtain ⟨more, rfl⟩ := List.head?_eq_some_iff.1 hhead
        have hstep : t.skipDirective place = t.skipDirective (place.walk ['\\', '\n']) := by
          refine loop_yield ['\\', '\n'] h (by simp) rfl ?_
          simp only [peek?_of_after h, peek?_succ h, bump_of_after h, bump_walk h, ok_bind]
          rfl
        rw [List.length_cons] at hn
        rw [hstep, ih more.length (by omega) (after_add ['\\', '\n'] h) rfl]
        simp [prepend]
      · rw [if_neg hcont]
        have hstep : t.skipDirective place = t.skipDirective (place.walk [b]) := by
          refine loop_yield [b] h (by simp) rfl ?_
          simp only [peek?_of_after h, peek?_succ h, bump_of_after h]
          rw [if_neg hline, if_neg hcont]
          rfl
        rw [hstep, ih rest.length (by omega) (after_succ h) rfl]
        simp [prepend]

/-- A sign belongs to a number if the letter of an exponent stands before it. -/
theorem isExponentSign_eq {last : Char} (b : Char) (hpos : 0 < place.offset)
    (hlast : t.peek? (place.offset - 1) = some last) :
    t.isExponentSign b place.offset = .ok ((b == '+' || b == '-') &&
      (last == 'e' || last == 'E' || last == 'p' || last == 'P')) := by
  unfold isExponentSign read
  rw [hlast, decide_eq_true hpos, Bool.and_true]
  cases b == '+' || b == '-' <;> rfl

/-- A number is passed as far as it goes on. -/
theorem skipNumber_eq {last : Char} (hpos : 0 < place.offset)
    (hlast : t.peek? (place.offset - 1) = some last) (h : t.after place.offset = rest) :
    t.skipNumber place = .ok (place.advance (splitNumber last rest).1.length) := by
  induction rest generalizing place last with
  | nil =>
    refine loop_done ?_
    simp only [peek?_of_nil h]
    rfl
  | cons b rest ih =>
    rw [splitNumber_cons]
    by_cases hb : numberGoesOn last b = true
    · have hstep : t.skipNumber place = t.skipNumber (place.advance 1) := by
        refine loop_yield [b] h (by simp) rfl ?_
        simp only [peek?_of_after h, isExponentSign_eq b hpos hlast]
        exact if_pos hb
      have hbefore : t.peek? ((place.advance 1).offset - 1) = some b := peek?_of_after h
      rw [if_pos hb, hstep, ih (Nat.succ_pos _) hbefore (after_succ h)]
      simp [Cursor.advance, Nat.add_assoc, Nat.add_comm 1]
    · rw [if_neg hb]
      refine loop_done ?_
      simp only [peek?_of_after h, isExponentSign_eq b hpos hlast]
      exact if_neg hb

/-- A literal is passed as far as its closing quote, and one without a closing quote is the fault of
the text. -/
theorem skipQuoted_eq {quote : Char} (hq : isQuote quote = true) (opened : Nat)
    (h : t.after place.offset = rest) :
    t.skipQuoted quote opened place =
      match splitLiteral quote rest with
      | some (body, _) => .ok (place.walk body)
      | none =>
        .error (.text (.unterminated (if quote = '"' then .string else .character) opened)) := by
  -- an escape takes two bytes at once
  induction hn : rest.length using Nat.strong_induction_on generalizing place rest with
  | _ n ih =>
    cases rest with
    | nil =>
      refine loop_error ?_
      simp only [peek?_of_nil h]
    | cons b rest =>
      rw [List.length_cons] at hn
      by_cases hescape : b = '\\'
      · subst hescape
        cases rest with
        | nil =>
          have hstep : t.skipQuoted quote opened place
              = t.skipQuoted quote opened (place.walk ['\\']) := by
            refine loop_yield ['\\'] h (by simp) rfl ?_
            have hnext : t.peek? (place.walk ['\\']).offset = none := peek?_succ h
            simp only [peek?_of_after h, bump_of_after h, ok_bind, hnext]
            rfl
          rw [hstep, ih 0 (by omega) (after_succ h) rfl]
          rcases isQuote_cases hq with rfl | rfl <;> rfl
        | cons c rest =>
          have hstep : t.skipQuoted quote opened place
              = t.skipQuoted quote opened (place.walk ['\\', c]) := by
            refine loop_yield ['\\', c] h (by simp) rfl ?_
            have hnext : t.peek? (place.walk ['\\']).offset = some c := peek?_succ h
            simp only [peek?_of_after h, bump_of_after h, bump_walk h, ok_bind, hnext]
            rfl
          rw [List.length_cons] at hn
          rw [hstep, splitLiteral_escape, ih rest.length (by omega)
            (after_add ['\\', c] h) rfl]
          cases splitLiteral quote rest with
          | none => rfl
          | some p => simp [prepend]
      · rw [splitLiteral_cons hq hescape]
        by_cases hline : b = '\n'
        · rw [if_pos hline]
          refine loop_error ?_
          simp only [peek?_of_after h]
          rw [if_pos hline]
        rw [if_neg hline]
        by_cases hclose : b = quote
        · rw [if_pos hclose]
          refine loop_done ?_
          simp only [peek?_of_after h]
          rw [if_neg hline, if_neg hescape, if_pos hclose,
            ← place.advance_length (by simpa using Ne.symm hline)]
          rfl
        · rw [if_neg hclose]
          have hstep : t.skipQuoted quote opened place
              = t.skipQuoted quote opened (place.walk [b]) := by
            refine loop_yield [b] h (by simp) rfl ?_
            simp only [peek?_of_after h]
            rw [if_neg hline, if_neg hescape, if_neg hclose,
              ← place.advance_length (by simpa using Ne.symm hline)]
            rfl
          rw [hstep, ih rest.length (by omega) (after_succ h) rfl]
          cases splitLiteral quote rest with
          | none => rfl
          | some p => simp [prepend]

/-- A unit of a gap is passed in one round. -/
theorem skipGap_of_unit {unit behind : List Char} (h : t.after place.offset = rest)
    (hunit : gapUnit? rest = some (unit, behind)) :
    t.skipGap place = t.skipGap (place.walk unit) := by
  have happend := h.trans (gapUnit?_append hunit).symm
  refine loop_yield unit happend (gapUnit?_ne_nil hunit) rfl ?_
  unfold gapUnit? at hunit
  -- the scanner asks for the four kinds of unit in the order in which `gapUnit?` does
  split at hunit
  · cases hunit
  next b rest =>
    simp only [peek?_of_after h, peek?_succ h]
    split at hunit
    next hblank =>
      cases hunit
      rw [if_pos hblank, bump_of_after h]
      rfl
    next hblank =>
    rw [if_neg hblank]
    split at hunit
    next hcont =>
      rw [if_pos hcont]
      obtain ⟨rfl, hhead⟩ := hcont
      obtain ⟨more, rfl⟩ := List.head?_eq_some_iff.1 hhead
      cases hunit
      rw [bump_of_after h, ok_bind, bump_walk h]
      rfl
    next hcont =>
    rw [if_neg hcont]
    split at hunit
    next hline =>
      rw [if_pos hline, skipWhile_eq _ h]
      obtain ⟨rfl, -⟩ := hline
      cases hunit
      have hwhile : ('/' :: rest).takeWhile (· ≠ '\n') = '/' :: rest.takeWhile (· ≠ '\n') := by simp
      have hbody : '\n' ∉ '/' :: rest.takeWhile (· ≠ '\n') := by
        rw [← hwhile]
        exact fun hmem => by simpa using List.mem_takeWhile_imp hmem
      rw [hwhile, place.advance_length hbody]
      rfl
    next hline =>
    rw [if_neg hline]
    split at hunit
    next hopen =>
      rw [if_pos hopen]
      obtain ⟨rfl, hhead⟩ := hopen
      obtain ⟨more, rfl⟩ := List.head?_eq_some_iff.1 hhead
      obtain ⟨⟨body, after⟩, hsplit, heq⟩ := Option.map_eq_some_iff.1 hunit
      cases heq
      have hadvance := place.advance_mark (a := '/') (b := '*') (by decide) (by decide)
      have hbehind : t.after (place.advance 2).offset = more := after_add ['/', '*'] h
      rw [skipComment_eq _ hbehind]
      simp only [List.tail_cons] at hsplit
      rw [hsplit, hadvance]
      simp
    · cases hunit

/-- Between two lexemes everything is passed, and only a block comment that does not close is left,
which is the fault of the text. -/
theorem skipGap_eq (h : t.after place.offset = rest) :
    t.skipGap place =
      if ['/', '*'] <+: (splitGap rest).2 then
        .error (.text (.unterminated .comment (place.walk (splitGap rest).1).line))
      else .ok (place.walk (splitGap rest).1) := by
  fun_induction splitGap rest generalizing place with
  | case2 rest unit behind hunit _ ih =>
    have hbehind := t.after_add unit (h.trans (gapUnit?_append hunit).symm)
    rw [skipGap_of_unit h hunit, ih hbehind, Cursor.walk_walk]
  | case1 rest hunit =>
    rw [Cursor.walk_nil]
    cases rest with
    | nil =>
      rw [if_neg (by simp)]
      refine loop_done ?_
      simp only [peek?_of_nil h]
    | cons b rest =>
      obtain ⟨hblank, hcont, hline⟩ := Token.of_gapUnit?_eq_none hunit
      -- no unit begins here: either the gap ends, or a comment is opened that nothing closes
      by_cases hopen : b = '/' ∧ rest.head? = some '*'
      · obtain ⟨more, rfl⟩ := List.head?_eq_some_iff.1 hopen.2
        rw [if_pos (by rwa [mark_prefix_cons])]
        refine loop_error ?_
        simp only [peek?_of_after h, peek?_succ h]
        rw [if_neg (by simp [hblank]), if_neg hcont, if_neg hline, if_pos hopen]
        obtain ⟨rfl, -⟩ := hopen
        have hbehind : t.after (place.advance 2).offset = more := after_add ['/', '*'] h
        rw [skipComment_eq _ hbehind, splitComment_of_gapUnit? hunit]
        rfl
      · rw [if_neg (by rwa [mark_prefix_cons])]
        refine loop_done ?_
        simp only [peek?_of_after h, peek?_succ h]
        rw [if_neg (by simp [hblank]), if_neg hcont, if_neg hline, if_neg hopen]

end Loops

/-! ### What a lexeme passes -/

section Lexemes

variable {t : SourceText} {here : Cursor} {c : Char} {cs : List Char}

/-- What the scanner makes of a lexeme that was cut off a list of bytes, or of its failure. -/
def located (here : Cursor) : Except Enclosure Lexeme → Except ScanError (TokenKind × Cursor)
  | .ok l => .ok (l.kind, here.cross l.kind l.text)
  | .error what => .error (.text (.unterminated what here.line))

/-- A literal is passed from its quote on, behind the mark that it may have. -/
theorem scanQuoted_eq (mark : List Char) (hline : '\n' ∉ mark) (hq : isQuote c = true)
    (h : t.after here.offset = mark ++ c :: cs) :
    t.scanQuoted here.line (here.begun.advance mark.length)
      = located here (quotedLexeme (mark ++ [c]) c cs) := by
  have hquote : t.after (here.begun.walk mark).offset = c :: cs := after_add mark h
  have hadvance : (here.begun.walk mark).advance 1 = here.begun.walk (mark ++ [c]) := by
    have hone : '\n' ∉ [c] := by
      rcases isQuote_cases hq with rfl | rfl <;> decide
    rw [← Cursor.walk_walk]
    exact Cursor.advance_length _ hone
  have hkind : (if c = '"' then TokenKind.string else .character) ≠ .directive := by
    split <;> decide
  rw [Cursor.advance_length _ hline]
  unfold scanQuoted quotedLexeme
  rw [read_of_after hquote, ok_bind, skipQuoted_eq hq here.line (after_succ hquote)]
  cases splitLiteral c cs with
  | none => rfl
  | some p =>
    show (Except.ok (_, ((here.begun.walk mark).advance 1).walk p.1) : Except ScanError _)
      = .ok (_, here.cross _ (mark ++ [c] ++ p.1))
    rw [hadvance, Cursor.walk_walk, Cursor.walk_begun here hkind]

/-- A number is passed from its first byte on, which is not a sign. -/
theorem skipNumber_start {place : Cursor} (h : t.after place.offset = c :: cs)
    (hc : (c.isDigit || c == '.') = true) :
    t.skipNumber place = .ok (place.advance (c :: (splitNumber c cs).1).length) := by
  have hsign : (c == '+' || c == '-') = false := by
    cases hplus : c == '+' || c == '-' with
    | false => rfl
    | true =>
      rcases Bool.or_eq_true_iff.1 hplus with heq | heq
      · rw [eq_of_beq heq] at hc
        exact absurd hc (by decide)
      · rw [eq_of_beq heq] at hc
        exact absurd hc (by decide)
  have hgoes : (isWordPart c || c == '.' || false) = true := by
    rcases Bool.or_eq_true_iff.1 hc with hdigit | hpoint
    · simp [isWordPart, hdigit]
    · simp [hpoint]
  have hstep : t.skipNumber place = t.skipNumber (place.advance 1) := by
    refine loop_yield [c] h (by simp) rfl ?_
    simp only [peek?_of_after h, isExponentSign, hsign, Bool.false_and]
    exact if_pos hgoes
  have hbefore : t.peek? ((place.advance 1).offset - 1) = some c := peek?_of_after h
  rw [hstep, skipNumber_eq (Nat.succ_pos _) hbefore (after_succ h)]
  simp [Cursor.advance, Nat.add_assoc, Nat.add_comm 1]

/-- At the place of a lexeme the scanner finds the lexeme that the bytes begin with. -/
theorem scanLexeme_eq (h : t.after here.offset = c :: cs) (hunit : gapUnit? (c :: cs) = none)
    (hopen : ¬ (c = '/' ∧ cs.head? = some '*')) :
    t.scanLexeme here c = located here (lexeme here.fresh c cs) := by
  have hbegun : t.after here.begun.offset = c :: cs := h
  -- over bytes of one line the cursor moves on as it does over a lexeme of them
  have hcross (kind : TokenKind) {bs : List Char} (hk : kind ≠ .directive) (hbs : '\n' ∉ bs) :
      here.begun.advance bs.length = here.cross kind bs := by
    rw [Cursor.advance_length _ hbs, Cursor.walk_begun here hk]
  have hline : '\n' ≠ c := by
    rintro rfl
    exact absurd (Token.of_gapUnit?_eq_none hunit).1 (by decide)
  unfold scanLexeme
  rw [peek?_succ h]
  by_cases hmark : c = '#' ∧ here.fresh = true
  · have hbegin : splitDirective (c :: cs) = prepend [c] (splitDirective cs) := by
      rw [splitDirective_cons, if_neg hline.symm, if_neg (by rw [hmark.1]; simp)]
    rw [if_pos hmark, lexeme.eq_def, if_pos hmark, skipDirective_eq hbegun, ok_bind, hbegin,
      Cursor.begun_walk_begun]
    rfl
  rw [if_neg hmark]
  by_cases hword : isWordStart c = true
  · rw [if_pos hword]
    by_cases hquote : (isLiteralMark c && cs.head?.any isQuote) = true
    · rw [if_pos hquote]
      cases cs with
      | nil => simp at hquote
      | cons quote body =>
        obtain ⟨hletter, hq⟩ := Bool.and_eq_true_iff.1 hquote
        rw [lexeme_marked hmark hword hletter hq]
        exact scanQuoted_eq [c] (by simpa using hline) hq h
    · have htake : (c :: cs).takeWhile isWordPart = c :: cs.takeWhile isWordPart :=
        List.takeWhile_cons_of_pos (by simp [isWordPart, hword])
      rw [if_neg hquote, lexeme_word hmark hword (by simpa using hquote),
        skipWhile_eq isWordPart hbegun, ok_bind,
        hcross .word (by decide) (not_mem_takeWhile_isWordPart _), htake]
      rfl
  rw [if_neg hword]
  by_cases hnumber : (c.isDigit || (c == '.' && cs.head?.any Char.isDigit)) = true
  · have hfirst : (c.isDigit || c == '.') = true := by
      rcases Bool.or_eq_true_iff.1 hnumber with hdigit | hpoint
      · simp [hdigit]
      · simp [(Bool.and_eq_true_iff.1 hpoint).1]
    have hbs : '\n' ∉ c :: (splitNumber c cs).1 := by
      rw [List.mem_cons, not_or]
      exact ⟨hline, not_mem_splitNumber c cs⟩
    rw [if_pos hnumber, lexeme_number hmark hword hnumber, skipNumber_start hbegun hfirst, ok_bind,
      hcross .number (by decide) hbs]
    rfl
  rw [if_neg hnumber]
  by_cases hquote : isQuote c = true
  · rw [if_pos hquote, lexeme_quoted hmark hword hnumber hquote]
    exact scanQuoted_eq [] (by simp) hquote h
  · -- the first byte of a punctuator is an ASCII character
    have hcut : t.cut here.offset = .ok (c :: cs) := by
      have hlow : c.toNat < 0x80 := by
        simp only [isWordStart, Bool.or_eq_true, not_or] at hword
        simpa using hword.2
      unfold cut isBoundary
      rw [peek?_of_after h, h]
      exact if_pos (by simp [hlow])
    rw [if_neg hquote, lexeme_punctuator hmark hword hnumber hquote hopen, hcut, ok_bind]
    have hle := punctuatorLength_le c cs
    have hlength : ((c :: cs).take (punctuatorLength (c :: cs))).length
        = punctuatorLength (c :: cs) := by
      rw [List.length_take]
      omega
    have hadvance := hcross .punctuation (by decide) (not_mem_take_punctuatorLength hline cs)
    rw [hlength] at hadvance
    rw [hadvance]
    rfl

end Lexemes

end SourceText

end WitnessReplay
