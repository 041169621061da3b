import WitnessReplay.Proofs.Program.Cutting

/-!
# How the first token decides

`Stmt.parse` tells the kinds of statements apart by their first tokens. Here each kind gets one
equivalence: from a list that begins so, a statement is read exactly if its parts are read one after
the other. All that is said of reading statements is said in terms of these.
-/

namespace WitnessReplay

open Token

/-- What a reader returns is what it reads. -/
theorem Reads.of_eq {α : Type} {ts : List Token} {result : Except ParseError (Parsed α ts)}
    {p : Parsed α ts} (h : result = .ok p) : Reads result p.value p.rest := by
  rw [h]
  rfl

/-- The texts by which statements are told apart. -/
def statementWords : List String :=
  ["\x7b", ";", "if", "do", "for", "case", "return", "break", "continue", "goto", "while", "switch"]

section

variable {types : List String} {t : Token} {rest after : List Token} {s : Stmt}

/-- Nothing is read from no tokens. -/
theorem parse_nil : ¬ Reads (Stmt.parse types []) s after := by
  rw [Stmt.parse]
  exact fun h => by cases h

/-- A directive is a statement of its own. -/
theorem parse_directive (hk : t.kind = .directive) :
    Reads (Stmt.parse types (t :: rest)) s after ↔
      s = .leaf t.line (.directive t.text) ∧ after = rest := by
  rw [Stmt.parse, if_pos hk]
  simp [Reads, cut?, eq_comm]

/-- A brace begins a block, which is read as a list up to its end. -/
theorem parse_block (hk : t.kind ≠ .directive) (ht : t.text = "\x7b") :
    Reads (Stmt.parse types (t :: rest)) s after ↔
      ∃ items, Reads (Stmt.parseItems types rest) items after ∧ s = .block t.line items := by
  rw [Stmt.parse, if_neg hk, if_pos ht]
  constructor
  · intro h
    split at h
    next => cases h
    next items hitems =>
      cases h
      exact ⟨items.value, .of_eq hitems, rfl⟩
  · intro h
    obtain ⟨items, hitems, rfl⟩ := h
    obtain ⟨_, hitems⟩ := hitems.eq_ok
    rw [hitems]
    rfl

/-- A semicolon is a statement of its own. -/
theorem parse_empty (hk : t.kind ≠ .directive) (ht : t.text = ";") :
    Reads (Stmt.parse types (t :: rest)) s after ↔ s = .leaf t.line .empty ∧ after = rest := by
  rw [Stmt.parse, if_neg hk, if_neg (by simp [ht]), if_pos ht]
  simp [Reads, cut?, eq_comm]

/-- A conditional has a condition and a branch, and a second one if `else` comes next. -/
theorem parse_if (hk : t.kind ≠ .directive) (ht : t.text = "if") :
    Reads (Stmt.parse types (t :: rest)) s after ↔
      ∃ inside behind yes behind', Reads (parenthesized .condition rest) inside behind ∧
        Reads (Stmt.parse types behind) yes behind' ∧
        ((headText behind' = "else" ∧ ∃ no, Reads (Stmt.parse types behind'.tail) no after ∧
            s = .ifElse t.line (.ofTokens inside) yes no) ∨
          (headText behind' ≠ "else" ∧ after = behind' ∧
            s = .headed t.line (.ifThen (.ofTokens inside)) yes)) := by
  rw [Stmt.parse, if_neg hk, if_neg (by simp [ht]), if_neg (by simp [ht]), if_pos ht]
  constructor
  · intro h
    -- each reader on the way may fail: only the branches where all of them succeed are left
    split at h
    next => cases h
    next cond hcond =>
      split at h
      next => cases h
      next yes hyes =>
        refine ⟨cond.value, cond.rest, yes.value, yes.rest, .of_eq hcond, .of_eq hyes, ?_⟩
        split at h
        next helse =>
          split at h
          next => cases h
          next no hno =>
            cases h
            exact .inl ⟨helse, no.value, .of_eq hno, rfl⟩
        next helse =>
          cases h
          exact .inr ⟨helse, rfl, rfl⟩
  · intro h
    obtain ⟨inside, behind, yes, behind', hcond, hyes, hend⟩ := h
    -- back: the same readers are run on what they are known to read
    obtain ⟨_, hcond⟩ := hcond.eq_ok
    obtain ⟨_, hyes⟩ := hyes.eq_ok
    rw [hcond]
    dsimp only
    rw [hyes]
    dsimp only
    rcases hend with ⟨helse, no, hno, rfl⟩ | ⟨helse, rfl, rfl⟩
    · obtain ⟨_, hno⟩ := hno.eq_ok
      rw [if_pos helse, hno]
      rfl
    · rw [if_neg helse]
      rfl

/-- A loop with its condition at the end: the body, `while`, the condition and a semicolon. -/
theorem parse_do (hk : t.kind ≠ .directive) (ht : t.text = "do") :
    Reads (Stmt.parse types (t :: rest)) s after ↔
      ∃ body behind word inside behind' semicolon, Reads (Stmt.parse types rest) body behind ∧
        behind = word :: behind' ∧ word.text = "while" ∧ semicolon.text = ";" ∧
        Reads (parenthesized .condition behind') inside (semicolon :: after) ∧
        s = .headed t.line (.doWhile (.ofTokens inside)) body := by
  rw [Stmt.parse, if_neg hk, if_neg (by simp [ht]), if_neg (by simp [ht]), if_neg (by simp [ht]),
    if_pos ht]
  constructor
  · intro h
    -- four readers in a row, each of which may fail: in the case that is left all succeed
    split at h
    next => cases h
    next body hbody =>
      split at h
      next => cases h
      next word hword =>
        split at h
        next => cases h
        next cond hcond =>
          split at h
          next => cases h
          next semicolon hsemicolon =>
            cases h
            obtain ⟨w, hw, htext⟩ := expect_eq_ok.1 (.of_eq hword)
            obtain ⟨e, he, hetext⟩ := expect_eq_ok.1 (.of_eq hsemicolon)
            have hread := Reads.of_eq hcond
            rw [he] at hread
            exact ⟨body.value, body.rest, w, cond.value, word.rest, e, .of_eq hbody, hw, htext,
              hetext, hread, rfl⟩
  · intro h
    obtain ⟨body, _, word, inside, behind', semicolon, hbody, rfl, hword, hsemicolon, hcond,
      rfl⟩ := h
    obtain ⟨_, hbody⟩ := hbody.eq_ok
    obtain ⟨_, hcond⟩ := hcond.eq_ok
    -- the two fixed tokens are there, so that `expect` succeeds on them
    have hword' : Reads (expect "while" .doWhile (word :: behind')) () behind' :=
      expect_eq_ok.2 ⟨word, rfl, hword⟩
    have hsemicolon' : Reads (expect ";" .doWhile (semicolon :: after)) () after :=
      expect_eq_ok.2 ⟨semicolon, rfl, hsemicolon⟩
    obtain ⟨_, hword'⟩ := hword'.eq_ok
    obtain ⟨_, hsemicolon'⟩ := hsemicolon'.eq_ok
    rw [hbody]
    dsimp only
    rw [hword']
    dsimp only
    rw [hcond]
    dsimp only
    rw [hsemicolon']
    rfl

/-- A counting loop keeps what is between its parentheses as it stands. -/
theorem parse_for (hk : t.kind ≠ .directive) (ht : t.text = "for") :
    Reads (Stmt.parse types (t :: rest)) s after ↔
      ∃ inside behind body, Reads (parenthesized .forHeader rest) inside behind ∧
        Reads (Stmt.parse types behind) body after ∧
        s = .headed t.line (.forLoop (verbatim inside)) body := by
  rw [Stmt.parse, if_neg hk, if_neg (by simp [ht]), if_neg (by simp [ht]), if_neg (by simp [ht]),
    if_neg (by simp [ht]), if_pos ht]
  constructor
  · intro h
    split at h
    next => cases h
    next header hheader =>
      split at h
      next => cases h
      next body hbody =>
        cases h
        exact ⟨header.value, header.rest, body.value, .of_eq hheader, .of_eq hbody, rfl⟩
  · intro h
    obtain ⟨inside, behind, body, hheader, hbody, rfl⟩ := h
    obtain ⟨_, hheader⟩ := hheader.eq_ok
    obtain ⟨_, hbody⟩ := hbody.eq_ok
    rw [hheader]
    dsimp only
    rw [hbody]
    rfl

/-- The statement behind a label, and what is left behind it. -/
def ReadsLabeled (types : List String) (line : Nat) (ts : List Token) (body : Stmt)
    (rest : List Token) : Prop :=
  (headText ts = "\x7d" ∧ body = .leaf line .empty ∧ rest = ts) ∨
    (headText ts ≠ "\x7d" ∧ Reads (Stmt.parse types ts) body rest)

/-- What is read behind a label is a statement, or a directive with nothing read. -/
theorem readsLabeled_of_eq {line : Nat} {ts : List Token} {body : Stmt}
    {behind : { rest : List Token // rest.length ≤ ts.length }}
    (h : Stmt.parseLabeled types line ts = .ok (body, behind)) :
    ReadsLabeled types line ts body behind := by
  rw [Stmt.parseLabeled] at h
  split at h
  next hend =>
    cases h
    exact .inl ⟨hend, rfl, rfl⟩
  next hend =>
    split at h
    next => cases h
    next hbody =>
      cases h
      exact .inr ⟨hend, .of_eq hbody⟩

theorem ReadsLabeled.eq_ok {line : Nat} {ts : List Token} {body : Stmt} {behind : List Token}
    (h : ReadsLabeled types line ts body behind) :
    ∃ shorter, Stmt.parseLabeled types line ts = .ok (body, ⟨behind, shorter⟩) := by
  rw [Stmt.parseLabeled]
  rcases h with ⟨hend, rfl, rfl⟩ | ⟨hend, hbody⟩
  · rw [if_pos hend]
    exact ⟨_, rfl⟩
  · obtain ⟨shorter, hbody⟩ := hbody.eq_ok
    rw [if_neg hend, hbody]
    exact ⟨Nat.le_of_lt shorter, rfl⟩

/-- A label goes through its colon and holds the statement behind it. -/
theorem parse_case (hk : t.kind ≠ .directive) (ht : t.text = "case") :
    Reads (Stmt.parse types (t :: rest)) s after ↔
      ∃ label behind body, Reads (splitLabel 0 rest) label behind ∧
        ReadsLabeled types t.line behind body after ∧
        s = .headed t.line (.label (verbatim (t :: label))) body := by
  rw [Stmt.parse, if_neg hk, if_neg (by simp [ht]), if_neg (by simp [ht]), if_neg (by simp [ht]),
    if_neg (by simp [ht]), if_neg (by simp [ht]), if_pos ht]
  constructor
  · intro h
    split at h
    next => cases h
    next label hlabel =>
      split at h
      next => cases h
      next body behind hbody =>
        cases h
        exact ⟨label.value, label.rest, body, .of_eq hlabel, readsLabeled_of_eq hbody, rfl⟩
  · intro h
    obtain ⟨label, behind, body, hlabel, hbody, rfl⟩ := h
    obtain ⟨_, hlabel⟩ := hlabel.eq_ok
    obtain ⟨_, hbody⟩ := hbody.eq_ok
    rw [hlabel]
    dsimp only
    rw [hbody]
    rfl

/-- A return has a value, unless its semicolon comes at once. -/
theorem parse_return (hk : t.kind ≠ .directive) (ht : t.text = "return") :
    Reads (Stmt.parse types (t :: rest)) s after ↔
      ∃ value, Reads (splitStatement 0 rest) value after ∧
        s = .leaf t.line (.returns (if value.isEmpty then none else some (.ofTokens value))) := by
  rw [Stmt.parse, if_neg hk, if_neg (by simp [ht]), if_neg (by simp [ht]), if_neg (by simp [ht]),
    if_neg (by simp [ht]), if_neg (by simp [ht]), if_neg (by simp [ht]), if_pos ht]
  constructor
  · intro h
    split at h
    next => cases h
    next p hp =>
      cases h
      exact ⟨p.value, .of_eq hp, rfl⟩
  · intro h
    obtain ⟨value, hp, rfl⟩ := h
    obtain ⟨_, hp⟩ := hp.eq_ok
    rw [hp]
    rfl

theorem parse_jump (hk : t.kind ≠ .directive)
    (ht : t.text = "break" ∨ t.text = "continue" ∨ t.text = "goto") :
    Reads (Stmt.parse types (t :: rest)) s after ↔
      ∃ value, Reads (splitStatement 0 rest) value after ∧
        s = .leaf t.line (.jump (verbatim (t :: value))) := by
  -- none of the words that are asked for earlier is one of the three
  have skip {word : String} (hw : word ≠ "break" ∧ word ≠ "continue" ∧ word ≠ "goto") :
      t.text ≠ word := by
    intro heq
    subst heq
    simp_all
  rw [Stmt.parse, if_neg hk, if_neg (skip (by simp)), if_neg (skip (by simp)),
    if_neg (skip (by simp)), if_neg (skip (by simp)), if_neg (skip (by simp)),
    if_neg (skip (by simp)), if_neg (skip (by simp)), if_pos ht]
  constructor
  · intro h
    split at h
    next => cases h
    next p hp =>
      cases h
      exact ⟨p.value, .of_eq hp, rfl⟩
  · intro h
    obtain ⟨value, hp, rfl⟩ := h
    obtain ⟨_, hp⟩ := hp.eq_ok
    rw [hp]
    rfl

/-- A condition in parentheses, and the statement it heads. -/
theorem parse_conditional {head : Expr → Head} (hk : t.kind ≠ .directive)
    (ht : conditionalHead? t.text = some head) :
    Reads (Stmt.parse types (t :: rest)) s after ↔
      ∃ inside behind body, Reads (parenthesized .condition rest) inside behind ∧
        Reads (Stmt.parse types behind) body after ∧
        s = .headed t.line (head (.ofTokens inside)) body := by
  -- a word with such a head is neither of those that are asked for earlier
  have skip {word : String} (hw : word ≠ "while" ∧ word ≠ "switch") : t.text ≠ word := by
    intro heq
    subst heq
    rw [conditionalHead?, if_neg hw.1, if_neg hw.2] at ht
    cases ht
  rw [Stmt.parse, if_neg hk, if_neg (skip (by simp)), if_neg (skip (by simp)),
    if_neg (skip (by simp)), if_neg (skip (by simp)), if_neg (skip (by simp)),
    if_neg (skip (by simp)), if_neg (skip (by simp)),
    if_neg (by simp [skip])]
  dsimp only
  rw [ht]
  constructor
  · intro h
    dsimp only at h
    split at h
    next => cases h
    next cond hcond =>
      split at h
      next => cases h
      next body hbody =>
        cases h
        exact ⟨cond.value, cond.rest, body.value, .of_eq hcond, .of_eq hbody, rfl⟩
  · intro h
    obtain ⟨inside, behind, body, hcond, hbody, rfl⟩ := h
    obtain ⟨_, hcond⟩ := hcond.eq_ok
    obtain ⟨_, hbody⟩ := hbody.eq_ok
    dsimp only
    rw [hcond]
    dsimp only
    rw [hbody]
    rfl

/-- Where no word decides, a colon behind a word does. -/
theorem parse_unmarked (hk : t.kind ≠ .directive) (ht : t.text ∉ statementWords) :
    Reads (Stmt.parse types (t :: rest)) s after ↔
      ((t.kind = .word ∧ headText rest = ":") ∧ ∃ body,
        ReadsLabeled types t.line rest.tail body after ∧
        s = .headed t.line (.label (verbatim (t :: rest.take 1))) body) ∨
      (¬ (t.kind = .word ∧ headText rest = ":") ∧ ∃ value,
        Reads (splitStatement 0 (t :: rest)) value after ∧
        s = .leaf t.line (Leaf.ofTokens types value)) := by
  have skip {word : String} (hw : word ∈ statementWords) : t.text ≠ word := by
    intro heq
    subst heq
    exact ht hw
  have hjump : ¬ (t.text = "break" ∨ t.text = "continue" ∨ t.text = "goto") := by
    intro hword
    rcases hword with h | h | h <;> exact ht (by simp [h, statementWords])
  have hhead : conditionalHead? t.text = none := by
    rw [conditionalHead?, if_neg (skip (by simp [statementWords])),
      if_neg (skip (by simp [statementWords]))]
  rw [Stmt.parse, if_neg hk, if_neg (skip (by simp [statementWords])),
    if_neg (skip (by simp [statementWords])), if_neg (skip (by simp [statementWords])),
    if_neg (skip (by simp [statementWords])), if_neg (skip (by simp [statementWords])),
    if_neg (skip (by simp [statementWords])), if_neg (skip (by simp [statementWords])),
    if_neg hjump]
  dsimp only
  rw [hhead]
  dsimp only
  by_cases hl : t.kind = .word ∧ headText rest = ":"
  -- a label, `default` among them
  · rw [if_pos hl]
    constructor
    · intro h
      split at h
      next => cases h
      next body behind hbody =>
        cases h
        exact .inl ⟨hl, body, readsLabeled_of_eq hbody, rfl⟩
    · intro h
      rcases h with ⟨-, body, hbody, rfl⟩ | ⟨hn, -⟩
      · obtain ⟨_, hbody⟩ := hbody.eq_ok
        rw [hbody]
        rfl
      · exact absurd hl hn
  · rw [if_neg hl]
    constructor
    · intro h
      split at h
      next => cases h
      next p hp =>
        cases h
        exact .inr ⟨hl, p.value, .of_eq hp, rfl⟩
    · intro h
      rcases h with ⟨hp, -⟩ | ⟨-, value, hp, rfl⟩
      · exact absurd hp hl
      · obtain ⟨_, hp⟩ := hp.eq_ok
        rw [hp]
        rfl

/-! ### All kinds at once -/

/-- How a statement is read from a list that begins with a token: which kind the token decides for,
and what is read behind it. -/
inductive Branch (types : List String) (t : Token) (ts : List Token) : Stmt → List Token → Prop
  | directive (hk : t.kind = .directive) : Branch types t ts (.leaf t.line (.directive t.text)) ts
  | block {items : List Stmt} {after : List Token} (hk : t.kind ≠ .directive) (ht : t.text = "\x7b")
      (hitems : Reads (Stmt.parseItems types ts) items after) :
      Branch types t ts (.block t.line items) after
  | empty (hk : t.kind ≠ .directive) (ht : t.text = ";") :
      Branch types t ts (.leaf t.line .empty) ts
  | ifElse {inside behind behind' after : List Token} {yes no : Stmt} (hk : t.kind ≠ .directive)
      (ht : t.text = "if") (hcond : Reads (parenthesized .condition ts) inside behind)
      (hyes : Reads (Stmt.parse types behind) yes behind') (helse : headText behind' = "else")
      (hno : Reads (Stmt.parse types behind'.tail) no after) :
      Branch types t ts (.ifElse t.line (.ofTokens inside) yes no) after
  | ifThen {inside behind after : List Token} {yes : Stmt} (hk : t.kind ≠ .directive)
      (ht : t.text = "if") (hcond : Reads (parenthesized .condition ts) inside behind)
      (hyes : Reads (Stmt.parse types behind) yes after) (helse : headText after ≠ "else") :
      Branch types t ts (.headed t.line (.ifThen (.ofTokens inside)) yes) after
  | doWhile {inside behind after : List Token} {word semicolon : Token} {body : Stmt}
      (hk : t.kind ≠ .directive) (ht : t.text = "do")
      (hbody : Reads (Stmt.parse types ts) body (word :: behind)) (hword : word.text = "while")
      (hcond : Reads (parenthesized .condition behind) inside (semicolon :: after))
      (hs : semicolon.text = ";") :
      Branch types t ts (.headed t.line (.doWhile (.ofTokens inside)) body) after
  | forLoop {inside behind after : List Token} {body : Stmt} (hk : t.kind ≠ .directive)
      (ht : t.text = "for") (hheader : Reads (parenthesized .forHeader ts) inside behind)
      (hbody : Reads (Stmt.parse types behind) body after) :
      Branch types t ts (.headed t.line (.forLoop (verbatim inside)) body) after
  | whileDo {inside behind after : List Token} {body : Stmt} (hk : t.kind ≠ .directive)
      (ht : t.text = "while") (hcond : Reads (parenthesized .condition ts) inside behind)
      (hbody : Reads (Stmt.parse types behind) body after) :
      Branch types t ts (.headed t.line (.whileDo (.ofTokens inside)) body) after
  | switch {inside behind after : List Token} {body : Stmt} (hk : t.kind ≠ .directive)
      (ht : t.text = "switch") (hcond : Reads (parenthesized .condition ts) inside behind)
      (hbody : Reads (Stmt.parse types behind) body after) :
      Branch types t ts (.headed t.line (.switch (.ofTokens inside)) body) after
  | case {label behind after : List Token} {body : Stmt} (hk : t.kind ≠ .directive)
      (ht : t.text = "case") (hlabel : Reads (splitLabel 0 ts) label behind)
      (hbody : ReadsLabeled types t.line behind body after) :
      Branch types t ts (.headed t.line (.label (verbatim (t :: label))) body) after
  | label {after : List Token} {body : Stmt} (hk : t.kind = .word) (ht : t.text ∉ statementWords)
      (hcolon : headText ts = ":") (hbody : ReadsLabeled types t.line ts.tail body after) :
      Branch types t ts (.headed t.line (.label (verbatim (t :: ts.take 1))) body) after
  | returns {value after : List Token} (hk : t.kind ≠ .directive) (ht : t.text = "return")
      (hvalue : Reads (splitStatement 0 ts) value after) :
      Branch types t ts
        (.leaf t.line (.returns (if value.isEmpty then none else some (.ofTokens value)))) after
  | jump {target after : List Token} (hk : t.kind ≠ .directive)
      (ht : t.text = "break" ∨ t.text = "continue" ∨ t.text = "goto")
      (htarget : Reads (splitStatement 0 ts) target after) :
      Branch types t ts (.leaf t.line (.jump (verbatim (t :: target)))) after
  | plain {value after : List Token} (hk : t.kind ≠ .directive) (ht : t.text ∉ statementWords)
      (hlabel : ¬ (t.kind = .word ∧ headText ts = ":"))
      (hvalue : Reads (splitStatement 0 (t :: ts)) value after) :
      Branch types t ts (.leaf t.line (Leaf.ofTokens types value)) after

/-- Every statement that is read is of one of the kinds. -/
theorem branch_of_parse (h : Reads (Stmt.parse types (t :: rest)) s after) :
    Branch types t rest s after := by
  -- the words are tried in the order of the parser: each case rests on the earlier ones failing
  by_cases hk : t.kind = .directive
  · obtain ⟨rfl, rfl⟩ := (parse_directive hk).1 h
    exact .directive hk
  by_cases hblock : t.text = "\x7b"
  · obtain ⟨items, hitems, rfl⟩ := (parse_block hk hblock).1 h
    exact .block hk hblock hitems
  by_cases hempty : t.text = ";"
  · obtain ⟨rfl, rfl⟩ := (parse_empty hk hempty).1 h
    exact .empty hk hempty
  by_cases hif : t.text = "if"
  · obtain ⟨inside, behind, yes, behind', hcond, hyes, hend⟩ := (parse_if hk hif).1 h
    rcases hend with ⟨helse, no, hno, rfl⟩ | ⟨helse, rfl, rfl⟩
    · exact .ifElse hk hif hcond hyes helse hno
    · exact .ifThen hk hif hcond hyes helse
  by_cases hdo : t.text = "do"
  · obtain ⟨body, _, word, inside, behind, semicolon, hbody, rfl, hword, hs, hcond, rfl⟩ :=
      (parse_do hk hdo).1 h
    exact .doWhile hk hdo hbody hword hcond hs
  by_cases hfor : t.text = "for"
  · obtain ⟨inside, behind, body, hheader, hbody, rfl⟩ := (parse_for hk hfor).1 h
    exact .forLoop hk hfor hheader hbody
  by_cases hcase : t.text = "case"
  · obtain ⟨label, behind, body, hlabel, hbody, rfl⟩ := (parse_case hk hcase).1 h
    exact .case hk hcase hlabel hbody
  by_cases hreturn : t.text = "return"
  · obtain ⟨value, hvalue, rfl⟩ := (parse_return hk hreturn).1 h
    exact .returns hk hreturn hvalue
  by_cases hjump : t.text = "break" ∨ t.text = "continue" ∨ t.text = "goto"
  · obtain ⟨target, htarget, rfl⟩ := (parse_jump hk hjump).1 h
    exact .jump hk hjump htarget
  by_cases hwhile : t.text = "while"
  · obtain ⟨inside, behind, body, hcond, hbody, rfl⟩ :=
      (parse_conditional hk (by rw [hwhile]; rfl)).1 h
    exact .whileDo hk hwhile hcond hbody
  by_cases hswitch : t.text = "switch"
  · obtain ⟨inside, behind, body, hcond, hbody, rfl⟩ :=
      (parse_conditional hk (by rw [hswitch]; rfl)).1 h
    exact .switch hk hswitch hcond hbody
  -- no word of a statement is left, so this is a label or a plain statement
  have hword : t.text ∉ statementWords := by
    simp only [not_or] at hjump
    simp [statementWords, *]
  rcases (parse_unmarked hk hword).1 h with ⟨hlabel, body, hbody, rfl⟩ | ⟨hlabel, value, hvalue, rfl⟩
  · exact .label hlabel.1 hword hlabel.2 hbody
  · exact .plain hk hword hlabel hvalue

/-! ### The statements of a block -/

theorem parseItems_nil {items : List Stmt} : ¬ Reads (Stmt.parseItems types []) items after := by
  rw [Stmt.parseItems]
  exact fun h => by cases h

/-- A list ends at its closing brace. -/
theorem parseItems_end {items : List Stmt} (ht : t.text = "\x7d") :
    Reads (Stmt.parseItems types (t :: rest)) items after ↔ items = [] ∧ after = rest := by
  rw [Stmt.parseItems, if_pos ht]
  simp [Reads, cut?, eq_comm]

/-- Otherwise it goes on with a statement. -/
theorem parseItems_cons {items : List Stmt} (ht : t.text ≠ "\x7d") :
    Reads (Stmt.parseItems types (t :: rest)) items after ↔
      ∃ first behind more, Reads (Stmt.parse types (t :: rest)) first behind ∧
        Reads (Stmt.parseItems types behind) more after ∧ items = first :: more := by
  rw [Stmt.parseItems, if_neg ht]
  constructor
  · intro h
    split at h
    next => cases h
    next first hfirst =>
      split at h
      next => cases h
      next more hmore =>
        cases h
        exact ⟨first.value, first.rest, more.value, .of_eq hfirst, .of_eq hmore, rfl⟩
  · intro h
    obtain ⟨first, behind, more, hfirst, hmore, rfl⟩ := h
    obtain ⟨_, hfirst⟩ := hfirst.eq_ok
    obtain ⟨_, hmore⟩ := hmore.eq_ok
    rw [hfirst]
    dsimp only
    rw [hmore]
    rfl

end

end WitnessReplay
