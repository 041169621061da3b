import WitnessReplay.Program.Parser

/-!
# Where a token list is cut

The reader of programs finds the end of a group, a statement, a label or a top-level item by running
over the tokens with a counter. All these cuts are one scan with different steps, and a scan looks
at nothing but the texts of the tokens. `Stops` says of texts alone that a scan comes to its end at
some text behind some others, and each cut is characterized by it: `splitClosing_eq_some`,
`splitOutside_eq_some`, `splitStatement_eq_ok`, `splitLabel_eq_ok`, `splitItem_eq_some`. What is cut
in one token list is then cut in the same way in every other one that is spelled alike.
-/

namespace WitnessReplay.Token

/-- The texts of some tokens. -/
abbrev texts (ts : List Token) : List String :=
  ts.map Token.text

/-! ### Scans -/

/-- What a scan does at a text: it goes on, it ends there, or it gives up. -/
inductive Advance (σ : Type)
  | goOn (state : σ)
  | stop
  | fail

/-- A scan that begins in a state passes all the texts of a list and stops at a last one. -/
def Stops {σ : Type} (step : σ → String → Advance σ) : σ → List String → String → Prop
  | state, [], last => step state last = .stop
  | state, text :: rest, last => ∃ next, step state text = .goOn next ∧ Stops step next rest last

section Scan

variable {σ : Type} {step : σ → String → Advance σ}

/-- Cuts a token list where a scan stops. -/
def scan (step : σ → String → Advance σ) : σ → List Token → Option (List Token × Token × List Token)
  | _, [] => none
  | state, t :: rest =>
    match step state t.text with
    | .stop => some ([], t, rest)
    | .goOn next => (scan step next rest).map fun (before, at_, after) => (t :: before, at_, after)
    | .fail => none

/-- **Where a scan cuts**: at the first token where its state stops. -/
theorem scan_eq_some {state : σ} {ts before after : List Token} {at_ : Token} :
    scan step state ts = some (before, at_, after) ↔
      ts = before ++ at_ :: after ∧ Stops step state (texts before) at_.text := by
  induction ts generalizing state before with
  | nil => simp [scan]
  | cons t rest ih =>
    rw [scan]
    constructor
    · intro h
      split at h
      next hs => cases h; exact ⟨rfl, hs⟩
      next next hs =>
        obtain ⟨⟨before', at', after'⟩, hp, heq⟩ := Option.map_eq_some_iff.1 h
        cases heq
        obtain ⟨rfl, hstops⟩ := ih.1 hp
        exact ⟨rfl, next, hs, hstops⟩
      next => cases h
    · intro h
      obtain ⟨hts, hstops⟩ := h
      -- the scan stops at the first token exactly if nothing stands before the cut
      cases before with
      | nil =>
        cases hts
        have hs : step state at_.text = .stop := hstops
        rw [hs]
      | cons u before =>
        cases hts
        obtain ⟨next, hs, hrest⟩ := hstops
        rw [hs]
        show (scan step next _).map _ = _
        rw [ih.2 ⟨rfl, hrest⟩]
        rfl

/-- Token lists with the same texts are cut or not cut alike. -/
theorem scan_eq_none {state : σ} {ts us : List Token} (htexts : texts us = texts ts)
    (h : scan step state ts = none) : scan step state us = none := by
  cases hu : scan step state us with
  | none => rfl
  | some cut =>
    obtain ⟨before, at_, after⟩ := cut
    obtain ⟨rfl, hstops⟩ := scan_eq_some.1 hu
    rw [texts, List.map_append] at htexts
    obtain ⟨before', more, rfl, hb, hm⟩ := List.map_eq_append_iff.1 htexts.symm
    obtain ⟨at', after', rfl, ha, -⟩ := List.map_eq_cons_iff.1 hm
    have hcut : scan step state (before' ++ at' :: after') = some (before', at', after') :=
      scan_eq_some.2 ⟨rfl, by rw [texts, hb, ha]; exact hstops⟩
    rw [h] at hcut
    cases hcut

/-- A scan that stops does so in some state. -/
theorem Stops.last {state : σ} {before : List String} {last : String}
    (h : Stops step state before last) : ∃ state', step state' last = .stop := by
  induction before generalizing state with
  | nil => exact ⟨state, h⟩
  | cons text before ih =>
    obtain ⟨_, -, h⟩ := h
    exact ih h

end Scan

/-! ### Brackets -/

/-- Whether a text is an opening bracket. -/
def isOpening (text : String) : Bool :=
  text == "(" || text == "[" || text == "\x7b"

/-- Whether a text is a closing bracket. -/
def isClosing (text : String) : Bool :=
  text == ")" || text == "]" || text == "\x7d"

/-- The scan for the bracket that closes the surroundings. -/
def closingStep (depth : Nat) (text : String) : Advance Nat :=
  if isOpening text then .goOn (depth + 1)
  else if isClosing text then
    match depth with
    | 0 => .stop
    | d + 1 => .goOn d
  else .goOn depth

theorem opens_eq (t : Token) : t.opens = isOpening t.text := rfl

theorem closes_eq (t : Token) : t.closes = isClosing t.text := rfl

/-- The search for a closing bracket is a scan. -/
theorem splitClosing_eq_scan (depth : Nat) (ts : List Token) :
    splitClosing depth ts
      = (scan closingStep depth ts).map fun (inside, _, after) => (inside, after) := by
  induction ts generalizing depth with
  | nil => rfl
  | cons t rest ih =>
    cases ho : isOpening t.text with
    | true => simp [splitClosing, scan, closingStep, opens_eq, ho, ih, Function.comp_def]
    | false =>
      cases hc : isClosing t.text with
      | false =>
        simp [splitClosing, scan, closingStep, opens_eq, closes_eq, ho, hc, ih, Function.comp_def]
      | true =>
        cases depth <;>
          simp [splitClosing, scan, closingStep, opens_eq, closes_eq, ho, hc, ih, Function.comp_def]

theorem splitClosing_eq_some {depth : Nat} {ts inside after : List Token} :
    splitClosing depth ts = some (inside, after) ↔
      ∃ close, ts = inside ++ close :: after ∧
        Stops closingStep depth (texts inside) close.text := by
  rw [splitClosing_eq_scan, Option.map_eq_some_iff]
  constructor
  · intro h
    obtain ⟨⟨inside', close, after'⟩, hscan, heq⟩ := h
    cases heq
    exact ⟨close, scan_eq_some.1 hscan⟩
  · intro h
    obtain ⟨close, h⟩ := h
    exact ⟨(inside, close, after), scan_eq_some.2 h, rfl⟩

/-- The scan for a text outside all brackets. -/
def outsideStep (test : String → Bool) (depth : Int) (text : String) : Advance Int :=
  if isOpening text then .goOn (depth + 1)
  else if isClosing text then .goOn (depth - 1)
  else if depth = 0 ∧ test text then .stop
  else .goOn depth

/-- The search outside of brackets is a scan. -/
theorem splitOutside_eq_scan (test : String → Bool) (depth : Int) (ts : List Token) :
    splitOutside test depth ts = scan (outsideStep test) depth ts := by
  induction ts generalizing depth with
  | nil => rfl
  | cons t rest ih =>
    rw [splitOutside, scan, outsideStep]
    by_cases ho : isOpening t.text = true
    · rw [if_pos ho, if_pos (show t.opens = true from ho), ih]
    rw [if_neg ho, if_neg (show ¬ t.opens = true from ho)]
    by_cases hc : isClosing t.text = true
    · rw [if_pos hc, if_pos (show t.closes = true from hc), ih]
    rw [if_neg hc, if_neg (show ¬ t.closes = true from hc)]
    by_cases hd : depth = 0 ∧ test t.text = true
    · rw [if_pos hd, if_pos hd]
    · rw [if_neg hd, if_neg hd, ih]

theorem splitOutside_eq_some {test : String → Bool} {depth : Int} {ts before after : List Token}
    {at_ : Token} :
    splitOutside test depth ts = some (before, at_, after) ↔
      ts = before ++ at_ :: after ∧ Stops (outsideStep test) depth (texts before) at_.text := by
  rw [splitOutside_eq_scan]
  exact scan_eq_some

/-- What it does not find in some texts it finds in no tokens with the same texts. -/
theorem splitOutside_eq_none {test : String → Bool} {depth : Int} {ts us : List Token}
    (htexts : texts us = texts ts) (h : splitOutside test depth ts = none) :
    splitOutside test depth us = none := by
  rw [splitOutside_eq_scan] at h ⊢
  exact scan_eq_none htexts h

/-! ### Statements, labels and items -/

/-- The scan for the semicolon that ends a statement. -/
def statementStep (depth : Nat) (text : String) : Advance Nat :=
  if isOpening text then .goOn (depth + 1)
  else if isClosing text then
    match depth with
    | 0 => .fail
    | d + 1 => .goOn d
  else if text = ";" ∧ depth = 0 then .stop
  else .goOn depth

end WitnessReplay.Token

namespace WitnessReplay

open Token

/-- What a reader read and the tokens that are left, if it succeeds. -/
def cut? {α : Type} {ts : List Token} :
    Except ParseError (Parsed α ts) → Option (α × List Token)
  | .ok p => some (p.value, p.rest)
  | .error _ => none

/-- Something was read, and some tokens are left. -/
def Reads {α : Type} {ts : List Token} (result : Except ParseError (Parsed α ts)) (value : α)
    (rest : List Token) : Prop :=
  cut? result = some (value, rest)

/-- Where a scan goes on, the reader puts the token in front of what it reads behind it. -/
theorem cut?_goOn {σ : Type} {step : σ → String → Advance σ} {state : σ} {t : Token}
    {rest : List Token} {result : Except ParseError (Parsed (List Token) rest)}
    {f : List Token × Token × List Token → List Token × List Token}
    (hf : ∀ before at_ after,
      f (t :: before, at_, after) = (t :: (f (before, at_, after)).1, (f (before, at_, after)).2))
    (h : cut? result = (scan step state rest).map f) :
    cut? (match result with
      | .error e => .error e
      | .ok p => .ok (⟨t :: p.value, p.rest, Nat.lt_succ_of_lt p.shorter⟩ :
          Parsed (List Token) (t :: rest)))
      = ((scan step state rest).map
          fun (before, at_, after) => (t :: before, at_, after)).map f := by
  cases hs : scan step state rest with
  | none => cases result <;> simp_all [cut?]
  | some cut =>
    obtain ⟨before, at_, after⟩ := cut
    cases result with
    | error e => simp [cut?, hs] at h
    | ok p =>
      have hp : (p.value, p.rest) = f (before, at_, after) := by simpa [cut?, hs] using h
      simp [cut?, hf, ← hp]

/-- The search for the end of a statement is a scan, but for its errors. -/
theorem splitStatement_eq_scan (depth : Nat) (ts : List Token) :
    cut? (splitStatement depth ts)
      = (scan statementStep depth ts).map fun (before, _, after) => (before, after) := by
  induction ts generalizing depth with
  | nil => rfl
  | cons t rest ih =>
    have goOn (d : Nat) := cut?_goOn (t := t) (fun _ _ _ => rfl) (ih d)
    cases ho : isOpening t.text with
    | true =>
      simp only [splitStatement, scan, statementStep, opens_eq, ho, if_true]
      exact goOn (depth + 1)
    | false =>
      cases hc : isClosing t.text with
      | true =>
        cases depth with
        | zero => simp [splitStatement, scan, statementStep, opens_eq, closes_eq, ho, hc, cut?]
        | succ d =>
          simp only [splitStatement, scan, statementStep, opens_eq, closes_eq, ho, hc, if_true,
            Bool.false_eq_true, if_false]
          exact goOn d
      | false =>
        simp only [splitStatement, scan, statementStep, opens_eq, closes_eq, ho, hc,
          Bool.false_eq_true, if_false]
        -- a semicolon ends the statement outside of brackets only
        by_cases hs : t.text = ";" ∧ depth = 0
        · rw [if_pos hs, if_pos hs]
          rfl
        · rw [if_neg hs, if_neg hs]
          exact goOn depth

theorem splitStatement_eq_ok {depth : Nat} {ts value rest : List Token} :
    Reads (splitStatement depth ts) value rest ↔
      ∃ semicolon, ts = value ++ semicolon :: rest ∧
        Stops statementStep depth (texts value) semicolon.text := by
  rw [Reads, splitStatement_eq_scan, Option.map_eq_some_iff]
  constructor
  · intro h
    obtain ⟨⟨value', semicolon, rest'⟩, hscan, heq⟩ := h
    cases heq
    exact ⟨semicolon, scan_eq_some.1 hscan⟩
  · intro h
    obtain ⟨semicolon, h⟩ := h
    exact ⟨(value, semicolon, rest), scan_eq_some.2 h, rfl⟩

/-- The scan for the colon that ends a `case` label. -/
def labelStep (pending : Nat) (text : String) : Advance Nat :=
  if text = "?" then .goOn (pending + 1)
  else if text = ":" then
    match pending with
    | 0 => .stop
    | n + 1 => .goOn n
  else if text = ";" ∨ text = "\x7b" ∨ text = "\x7d" then .fail
  else .goOn pending

/-- The search for the colon of a label is a scan, but for its errors. -/
theorem splitLabel_eq_scan (pending : Nat) (ts : List Token) :
    cut? (splitLabel pending ts)
      = (scan labelStep pending ts).map fun (before, colon, after) =>
          (before ++ [colon], after) := by
  induction ts generalizing pending with
  | nil => rfl
  | cons t rest ih =>
    have goOn (n : Nat) := cut?_goOn (t := t) (fun _ _ _ => rfl) (ih n)
    by_cases hq : t.text = "?"
    · simp only [splitLabel, scan, labelStep, hq, if_true]
      exact goOn (pending + 1)
    by_cases hc : t.text = ":"
    · cases pending with
      | zero => simp [splitLabel, scan, labelStep, hc, cut?]
      | succ n =>
        simp only [splitLabel, scan, labelStep, if_neg hq, if_pos hc]
        exact goOn n
    by_cases hs : t.text = ";" ∨ t.text = "\x7b" ∨ t.text = "\x7d"
    · simp only [splitLabel, scan, labelStep, if_neg hq, if_neg hc, if_pos hs, cut?]
      rfl
    · simp only [splitLabel, scan, labelStep, if_neg hq, if_neg hc, if_neg hs]
      exact goOn pending

theorem splitLabel_eq_ok {pending : Nat} {ts value rest : List Token} :
    Reads (splitLabel pending ts) value rest ↔
      ∃ before colon, value = before ++ [colon] ∧ ts = before ++ colon :: rest ∧
        Stops labelStep pending (texts before) colon.text := by
  rw [Reads, splitLabel_eq_scan, Option.map_eq_some_iff]
  constructor
  · intro h
    obtain ⟨⟨before, colon, rest'⟩, hscan, heq⟩ := h
    cases heq
    exact ⟨before, colon, rfl, scan_eq_some.1 hscan⟩
  · intro h
    obtain ⟨before, colon, rfl, h⟩ := h
    exact ⟨(before, colon, rest), scan_eq_some.2 h, rfl⟩

/-- The scan for the end of a top-level item or the beginning of its body. Its state is the depth
and the text before. -/
def itemStep (state : Int × String) (text : String) : Advance (Int × String) :=
  if text = "\x7b" ∧ state.1 = 0 ∧ state.2 = ")" then .stop
  else if text = ";" ∧ state.1 = 0 then .stop
  else .goOn
    (if isOpening text then state.1 + 1 else if isClosing text then state.1 - 1 else state.1,
    text)

/-- The search for the end of an item is a scan. -/
theorem splitItem_eq_scan (depth : Int) (previous : String) (ts : List Token) :
    splitItem depth previous ts = scan itemStep (depth, previous) ts := by
  induction ts generalizing depth previous with
  | nil => rfl
  | cons t rest ih =>
    rw [splitItem, scan, itemStep]
    by_cases hb : t.text = "\x7b" ∧ depth = 0 ∧ previous = ")"
    · rw [if_pos hb, if_pos hb]
    by_cases hs : t.text = ";" ∧ depth = 0
    · rw [if_neg hb, if_pos hs, if_neg hb, if_pos hs]
    · rw [if_neg hb, if_neg hs, if_neg hb, if_neg hs]
      show (splitItem _ _ _).map _ = _
      rw [ih]
      rfl

theorem splitItem_eq_some {depth : Int} {previous : String} {ts before after : List Token}
    {at_ : Token} :
    splitItem depth previous ts = some (before, at_, after) ↔
      ts = before ++ at_ :: after ∧ Stops itemStep (depth, previous) (texts before) at_.text := by
  rw [splitItem_eq_scan]
  exact scan_eq_some

/-! ### Groups -/

/-- A reader that reads something succeeds. -/
theorem Reads.eq_ok {α : Type} {ts rest : List Token} {value : α}
    {result : Except ParseError (Parsed α ts)} (h : Reads result value rest) :
    ∃ shorter, result = .ok ⟨value, rest, shorter⟩ := by
  cases result with
  | error e => cases h
  | ok p =>
    cases h
    exact ⟨p.shorter, rfl⟩

theorem Reads.shorter {α : Type} {ts rest : List Token} {value : α}
    {result : Except ParseError (Parsed α ts)} (h : Reads result value rest) :
    rest.length < ts.length := by
  obtain ⟨shorter, -⟩ := h.eq_ok
  exact shorter

/-- An expected text is read where it stands. -/
theorem expect_eq_ok {text : String} {context : Construct} {ts rest : List Token} :
    Reads (expect text context ts) () rest ↔ ∃ t, ts = t :: rest ∧ t.text = text := by
  cases ts with
  | nil => simp [Reads, cut?, expect]
  | cons t us =>
    rw [expect]
    constructor
    · intro h
      split at h
      next ht => cases h; exact ⟨t, rfl, ht⟩
      next => cases h
    · intro h
      obtain ⟨_, heq, ht⟩ := h
      cases heq
      rw [if_pos ht]
      rfl

/-- A condition is read between its parentheses. -/
theorem parenthesized_eq_ok {context : Construct} {ts inside rest : List Token} :
    Reads (parenthesized context ts) inside rest ↔
      ∃ opening closing, ts = opening :: inside ++ closing :: rest ∧ opening.text = "(" ∧
        Stops closingStep 0 (texts inside) closing.text := by
  constructor
  · intro h
    unfold parenthesized at h
    split at h
    next => cases h
    next bracket hb =>
      have hexpect : Reads (expect "(" context ts) () bracket.rest := by rw [Reads, hb]; rfl
      obtain ⟨opening, hts, hopening⟩ := expect_eq_ok.1 hexpect
      split at h
      next inside' after hs =>
        cases h
        obtain ⟨closing, hrest, hstops⟩ := splitClosing_eq_some.1 hs
        exact ⟨opening, closing, hts.trans (congrArg (opening :: ·) hrest), hopening, hstops⟩
      next => cases h
  · intro h
    obtain ⟨opening, closing, rfl, hopening, hstops⟩ := h
    -- back: the opening one is found by `expect`, the closing one by the scan
    have hexpect : Reads (expect "(" context (opening :: (inside ++ closing :: rest))) ()
        (inside ++ closing :: rest) := expect_eq_ok.2 ⟨opening, rfl, hopening⟩
    obtain ⟨_, hb⟩ := hexpect.eq_ok
    have hs : splitClosing 0 (inside ++ closing :: rest) = some (inside, rest) :=
      splitClosing_eq_some.2 ⟨closing, rfl, hstops⟩
    unfold parenthesized
    rw [List.cons_append, hb]
    dsimp only
    split
    next hs' => rw [hs] at hs'; cases hs'; rfl
    next hs' => rw [hs] at hs'; cases hs'

/-- A call is a word with parentheses behind it that close at the end. -/
theorem callArguments?_eq_some {ts inside : List Token} {callee : String} :
    callArguments? ts = some (callee, inside) ↔
      ∃ name opening closing, ts = name :: opening :: inside ++ [closing] ∧ name.kind = .word ∧
        name.text = callee ∧ opening.text = "(" ∧
          Stops closingStep 0 (texts inside) closing.text := by
  constructor
  · intro h
    unfold callArguments? at h
    split at h
    next name opening rest =>
      split at h
      next hc =>
        split at h
        next inside' hs =>
          cases h
          obtain ⟨closing, rfl, hstops⟩ := splitClosing_eq_some.1 hs
          exact ⟨name, opening, closing, rfl, hc.1, rfl, hc.2, hstops⟩
        next => cases h
      next => cases h
    next => cases h
  · intro h
    obtain ⟨name, opening, closing, rfl, hk, rfl, ho, hstops⟩ := h
    have hs : splitClosing 0 (inside ++ [closing]) = some (inside, []) :=
      splitClosing_eq_some.2 ⟨closing, rfl, hstops⟩
    rw [List.cons_append, List.cons_append, callArguments?, if_pos ⟨hk, ho⟩, hs]

/-! ### Nesting -/

/-- The bracket that closes an opening one. -/
def partner (text : String) : String :=
  if text = "(" then ")" else if text = "[" then "]" else "\x7d"

/-- The brackets that wait to be closed behind some tokens, the innermost first; `pending` wait
before them. There is no answer if a bracket closes one of another kind, or none. -/
def pendingBehind (pending : List String) : List Token → Option (List String)
  | [] => some pending
  | t :: rest =>
    if isOpening t.text then pendingBehind (partner t.text :: pending) rest
    else if isClosing t.text then
      match pending with
      | expected :: outer => if t.text = expected then pendingBehind outer rest else none
      | [] => none
    else pendingBehind pending rest

/-- Whether the brackets of some tokens nest with matching kinds. -/
def Nested (ts : List Token) : Prop :=
  pendingBehind [] ts = some []

instance (ts : List Token) : Decidable (Nested ts) :=
  inferInstanceAs (Decidable (_ = _))

/-- Some tokens are a stretch of a list whose brackets nest. -/
def NestedWithin (ts : List Token) : Prop :=
  ∃ pending pending', pendingBehind pending ts = some pending'

/-- The open brackets are listed from left to right. -/
theorem pendingBehind_append {pending : List String} {ts us : List Token} :
    pendingBehind pending (ts ++ us)
      = (pendingBehind pending ts).bind fun pending' => pendingBehind pending' us := by
  induction ts generalizing pending with
  | nil => rfl
  | cons t ts ih =>
    rw [List.cons_append, pendingBehind.eq_def, pendingBehind.eq_def pending (t :: ts)]
    dsimp only
    split
    next => exact ih
    next =>
      split
      next =>
        split
        next => split; exact ih; rfl
        next => rfl
      next => exact ih

/-- The front of what is nested within a bracket is nested within it. -/
theorem NestedWithin.left {ts us : List Token} (h : NestedWithin (ts ++ us)) : NestedWithin ts := by
  obtain ⟨pending, pending', h⟩ := h
  rw [pendingBehind_append] at h
  obtain ⟨middle, hts, -⟩ := Option.bind_eq_some_iff.1 h
  exact ⟨pending, middle, hts⟩

theorem NestedWithin.right {ts us : List Token} (h : NestedWithin (ts ++ us)) :
    NestedWithin us := by
  obtain ⟨pending, pending', h⟩ := h
  rw [pendingBehind_append] at h
  obtain ⟨middle, -, hus⟩ := Option.bind_eq_some_iff.1 h
  exact ⟨middle, pending', hus⟩

theorem NestedWithin.tail {ts : List Token} (h : NestedWithin ts) : NestedWithin ts.tail := by
  cases ts with
  | nil => exact h
  | cons t ts => exact NestedWithin.right (show NestedWithin ([t] ++ ts) from h)

/-- Where brackets nest, the scan for a closing bracket finds the one that the innermost pending
bracket waits for, below those that the scan has counted. -/
theorem text_of_stops {pending inner outer : List String} {expected : String}
    {ts after : List Token}
    {closing : Token} (hstops : Stops closingStep inner.length (texts ts) closing.text)
    (hn : pendingBehind (inner ++ expected :: outer) (ts ++ closing :: after) = some pending) :
    closing.text = expected := by
  -- the scan has counted the brackets of `inner`, those that wait above `expected`
  induction ts generalizing inner with
  | nil =>
    have hstep : closingStep inner.length closing.text = .stop := hstops
    rw [closingStep.eq_def] at hstep
    rw [List.nil_append, pendingBehind.eq_def] at hn
    dsimp only at hn
    split at hstep
    next => cases hstep
    next ho =>
      rw [if_neg ho] at hn
      split at hstep
      next hc =>
        rw [if_pos hc] at hn
        cases inner with
        | nil =>
          dsimp only [List.nil_append] at hn
          split at hn
          next => assumption
          next => cases hn
        | cons _ _ => cases hstep
      next => cases hstep
  | cons t ts ih =>
    obtain ⟨next, hstep, hrest⟩ := hstops
    rw [closingStep.eq_def] at hstep
    rw [List.cons_append, pendingBehind.eq_def] at hn
    dsimp only at hn
    split at hstep
    next ho =>
      cases hstep
      rw [if_pos ho] at hn
      have hinner : Stops closingStep (partner t.text :: inner).length (texts ts) closing.text :=
        hrest
      exact ih hinner hn
    next ho =>
      rw [if_neg ho] at hn
      split at hstep
      next hc =>
        rw [if_pos hc] at hn
        cases inner with
        | nil => cases hstep
        | cons e inner =>
          cases hstep
          dsimp only [List.cons_append] at hn
          split at hn
          next => exact ih hrest hn
          next => cases hn
      next hc =>
        cases hstep
        rw [if_neg hc] at hn
        exact ih hrest hn

/-- Where brackets nest, a parenthesis is closed by a parenthesis. -/
theorem closing_text {inside after : List Token} {opening closing : Token}
    (hn : NestedWithin (opening :: inside ++ closing :: after)) (ho : opening.text = "(")
    (hstops : Stops closingStep 0 (texts inside) closing.text) : closing.text = ")" := by
  obtain ⟨pending, pending', hn⟩ := hn
  have hopens : isOpening opening.text = true := by rw [ho]; rfl
  rw [List.cons_append, pendingBehind.eq_def] at hn
  dsimp only at hn
  rw [if_pos hopens] at hn
  have hinner : Stops closingStep ([] : List String).length (texts inside) closing.text := hstops
  exact (text_of_stops hinner hn).trans (by rw [ho]; rfl)

end WitnessReplay
