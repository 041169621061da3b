import WitnessReplay.Proofs.Program.Erasure
import WitnessReplay.Proofs.Program.Lines

/-!
# Printing statements

`Stmt.Read.prints` is the induction over statements: what the grammar derives from some tokens is
printed as lines from which the same tokens are read back, and from these the grammar derives the
same statement on other lines.

A directive has to be a statement, since a number sign counts only where a line begins. Each
directive that is a statement is one token, so it is enough that there are no more directives among
the tokens than there are among the statements; then there is none inside a condition or an
expression.
-/

namespace WitnessReplay

open Token

/-! ### Directives -/

/-- How many directives there are among some tokens. -/
def directiveCount (ts : List Token) : Nat :=
  ts.countP fun t => t.kind = .directive

@[simp] theorem directiveCount_append (ts us : List Token) :
    directiveCount (ts ++ us) = directiveCount ts + directiveCount us :=
  List.countP_append

@[simp] theorem directiveCount_cons (t : Token) (ts : List Token) :
    directiveCount (t :: ts) = directiveCount ts + if t.kind = .directive then 1 else 0 := by
  simp [directiveCount, List.countP_cons]

@[simp] theorem directiveCount_nil : directiveCount [] = 0 := rfl

/-- An excerpt without directives stands on one line. -/
theorem Excerpt.inline {ts : List Token} (h : Excerpt ts) (hd : directiveCount ts = 0) :
    Inline ts :=
  ⟨h, fun t ht => by simpa using List.countP_eq_zero.1 hd t ht⟩

variable {types : List String}

/-- A leaf has no more directives than the tokens it is spelled with. -/
theorem Leaf.Spelled.directives_le {content : Leaf} {ts : List Token} {line : Option Nat}
    (h : content.Spelled types ts) :
    (Stmt.leaf line content).directives.length ≤ directiveCount ts := by
  cases h with
  | directive hk => simp [Stmt.directives, hk]
  | empty | returns | jump => simp [Stmt.directives]
  | @plain _ ts =>
    rw [Leaf.ofTokens]
    split <;> simp [Stmt.directives]

mutual

/-- Every directive that is a statement is a token. -/
theorem Stmt.Read.directives_le {ts printed : List Token} {next : String} :
    (s : Stmt) → Stmt.Read types s ts next printed → s.directives.length ≤ directiveCount ts
  | .leaf _ _, h => by
    cases h with
    | leaf h => exact h.directives_le
  | .block _ items, h => by
    cases h with
    | block hk ho hc h =>
      have := Stmt.ReadAll.directives_le items h
      simp only [Stmt.directives, List.cons_append, directiveCount_cons, directiveCount_append]
      omega
  | .headed _ _ body, h => by
    cases h with
    | headed hh hb ha =>
      have := Stmt.Read.directives_le body hb
      simp only [Stmt.directives, directiveCount_append]
      omega
    | lastLabel hh => simp [Stmt.directives]
    | doWhile hk hw hb hg hs =>
      have := Stmt.Read.directives_le body hb
      simp only [Stmt.directives, List.cons_append, directiveCount_cons, directiveCount_append]
      omega
  | .ifElse _ _ yes no, h => by
    cases h with
    | ifElse hk hg hy hw hn =>
      have := Stmt.Read.directives_le yes hy
      have := Stmt.Read.directives_le no hn
      simp only [Stmt.directives, List.length_append, directiveCount_append, directiveCount_cons]
      omega

theorem Stmt.ReadAll.directives_le {ts printed : List Token} :
    (items : List Stmt) → Stmt.ReadAll types items ts printed →
      (Stmt.directivesOf items).length ≤ directiveCount ts
  | [], _ => by simp [Stmt.directivesOf]
  | s :: rest, h => by
    cases h with
    | cons hs ht hr =>
      have := Stmt.Read.directives_le s hs
      have := Stmt.ReadAll.directives_le rest hr
      simp only [Stmt.directivesOf, List.length_append, directiveCount_append]
      omega

end

/-! ### Printed tokens -/

/-- Printing inserts nothing in front of a statement. -/
theorem Stmt.Read.exists_cons {s : Stmt} {ts printed : List Token} {next : String}
    (h : Stmt.Read types s ts next printed) :
    ∃ t rest rest', ts = t :: rest ∧ printed = t :: rest' := by
  cases h with
  | leaf h =>
    obtain ⟨t, ts, rfl⟩ := List.exists_cons_of_ne_nil h.ne_nil
    exact ⟨t, ts, ts, rfl, rfl⟩
  | block hk ho hc h => exact ⟨_, _, _, rfl, rfl⟩
  | headed hh hb ha =>
    obtain ⟨t, ts, rfl⟩ := List.exists_cons_of_ne_nil hh.ne_nil
    exact ⟨t, _, _, rfl, rfl⟩
  | lastLabel hh =>
    obtain ⟨t, ts, rfl⟩ := List.exists_cons_of_ne_nil hh.ne_nil
    exact ⟨t, _, _, rfl, rfl⟩
  | doWhile => exact ⟨_, _, _, rfl, rfl⟩
  | ifElse hk hg hy hw hn =>
    obtain ⟨t, ts, rfl⟩ := List.exists_cons_of_ne_nil hg.ne_nil
    exact ⟨t, _, _, rfl, rfl⟩

/-- A statement is printed with its first token. -/
theorem Stmt.Read.headText_printed {s : Stmt} {ts printed : List Token} {next : String}
    (h : Stmt.Read types s ts next printed) : headText printed = headText ts := by
  obtain ⟨t, rest, rest', rfl, rfl⟩ := h.exists_cons
  rfl

/-- So is a list, or with what comes behind it if it is empty. -/
theorem Stmt.ReadAll.textAt_printed {items : List Stmt} {ts printed : List Token}
    (h : Stmt.ReadAll types items ts printed) (next : String) :
    textAt printed next = textAt ts next := by
  cases h with
  | nil => rfl
  | cons hs ht hr =>
    obtain ⟨t, rest, rest', rfl, rfl⟩ := hs.exists_cons
    rfl

/-- Whether a token was read, and is no semicolon that printing inserts. -/
def isSource (t : Token) : Bool :=
  t != insertedSemicolon

/-- Tokens of the source are kept. -/
theorem filter_isSource {ts : List Token} (h : ∀ t ∈ ts, isSource t = true) :
    ts.filter isSource = ts :=
  List.filter_eq_self.2 h

mutual

/-- Printing a statement adds semicolons to its tokens, and nothing else. -/
theorem Stmt.Read.filter_printed {ts printed : List Token} {next : String} :
    (s : Stmt) → Stmt.Read types s ts next printed → (∀ t ∈ ts, isSource t = true) →
      printed.filter isSource = ts
  | .leaf _ _, h, hsource => by
    cases h with
    | leaf h => exact filter_isSource hsource
  | .block _ items, h, hsource => by
    cases h with
    | block hk ho hc h =>
      simp only [List.cons_append, List.forall_mem_cons, List.forall_mem_append] at hsource
      have hitems := Stmt.ReadAll.filter_printed items h hsource.2.1
      simp [hitems, hsource]
  | .headed _ _ body, h, hsource => by
    cases h with
    | headed hh hb ha =>
      simp only [List.forall_mem_append] at hsource
      have hbody := Stmt.Read.filter_printed body hb hsource.2
      rw [List.filter_append, filter_isSource hsource.1, hbody]
    | lastLabel hh =>
      rw [List.filter_append, filter_isSource hsource, List.filter_cons_of_neg (by decide)]
      exact List.append_nil _
    | doWhile hk hw hb hg hs =>
      simp only [List.cons_append, List.forall_mem_cons, List.forall_mem_append] at hsource
      have hbody := Stmt.Read.filter_printed body hb hsource.2.1
      simp [hbody, filter_isSource hsource.2.2.1, hsource]
  | .ifElse _ _ yes no, h, hsource => by
    cases h with
    | ifElse hk hg hy hw hn =>
      simp only [List.forall_mem_cons, List.forall_mem_append] at hsource
      have hyes := Stmt.Read.filter_printed yes hy hsource.2.1
      have hno := Stmt.Read.filter_printed no hn hsource.2.2.2
      simp [hyes, hno, filter_isSource hsource.1, hsource]

/-- Without what printing adds, a list is printed with the tokens it was read from. -/
theorem Stmt.ReadAll.filter_printed {ts printed : List Token} :
    (items : List Stmt) → Stmt.ReadAll types items ts printed → (∀ t ∈ ts, isSource t = true) →
      printed.filter isSource = ts
  | [], h, _ => by
    cases h
    rfl
  | s :: rest, h, hsource => by
    cases h with
    | cons hs ht hr =>
      simp only [List.forall_mem_append] at hsource
      rw [List.filter_append, Stmt.Read.filter_printed s hs hsource.1,
        Stmt.ReadAll.filter_printed rest hr hsource.2]

end

/-- Printing top-level items adds semicolons to their tokens, and nothing else. -/
theorem Program.ReadItems.filter_printed {items : List Item} {ts printed : List Token}
    (h : Program.ReadItems types items ts printed) (hsource : ∀ t ∈ ts, isSource t = true) :
    printed.filter isSource = ts := by
  induction h with
  | nil => rfl
  | directive hk _ ih =>
    simp only [List.forall_mem_cons] at hsource
    rw [List.filter_cons_of_pos hsource.1, ih hsource.2]
  | verbatim hk hs ht _ ih =>
    simp only [List.forall_mem_cons, List.forall_mem_append] at hsource
    rw [List.filter_append, filter_isSource hsource.1, List.filter_cons_of_pos hsource.2.1,
      ih hsource.2.2]
  | function hk hs ho hc hb _ ih =>
    simp only [List.forall_mem_cons, List.forall_mem_append] at hsource
    have hbody := hb.filter_printed _ hsource.2.2.1
    simp [filter_isSource hsource.1, hbody, ih hsource.2.2.2.2, hsource]

/-- Tokens that are spelled like others and that the same statement is read from, but for lines. -/
def SameStmt (types : List String) (s : Stmt) (next : String) (printed vs : List Token) : Prop :=
  Alike vs printed ∧ ∃ s' : Stmt, s'.eraseLines = s.eraseLines ∧ Stmt.Read types s' vs next vs

/-- Tokens that are spelled like others and that the same statements are read from, but for
lines. -/
def SameStmts (types : List String) (items : List Stmt) (printed vs : List Token) : Prop :=
  Alike vs printed ∧ ∃ items', Stmt.eraseLinesOf items' = Stmt.eraseLinesOf items ∧
    Stmt.ReadAll types items' vs vs

/-! ### Single lines -/

theorem Is.ne_nil {t : Token} {vs : List Token} (h : Is t vs) : vs ≠ [] := by
  obtain ⟨v, rfl, -, -⟩ := h
  simp

/-- A word or a bracket that has a line of its own. -/
theorem Token.Copyable.prints_mark {t : Token} {text : String} (h : Copyable [t])
    (hk : t.kind ≠ .directive) (ht : t.text = text) (hne : text ≠ "\\") (depth : Nat) :
    PrintsLines (Is t) (Line.render ⟨depth, text⟩) := by
  have hone := h.prints_one hk (by rwa [ht])
  rw [ht] at hone
  exact PrintsLines.line hone (fun _ => Is.ne_nil) depth

/-- The condition of an `if` that has a line of its own. -/
theorem Guard.prints_if {inside guard : List Token} (hg : Guard "if" inside guard)
    (hi : Inline guard) (depth : Nat) :
    PrintsLines (fun vs => Alike vs guard ∧ ∃ inside', SameExpr inside inside' ∧
        Guard "if" inside' vs)
      (Line.render ⟨depth, "if (" ++ (Expr.ofTokens inside).render ++ ")"⟩) :=
  PrintsLines.line (hg.prints_condition hi) (fun _ hvs => hvs.1.ne_nil hg.ne_nil) depth

/-- The condition behind the statement of a `do`, with its semicolon. -/
theorem Guard.prints_while {inside guard : List Token} {semicolon : Token}
    (hg : Guard "while" inside guard) (hi : Inline guard) (hs : Prints Breaks (Is semicolon) ";")
    (depth : Nat) :
    PrintsLines (Both (fun vs => Alike vs guard ∧ ∃ inside', SameExpr inside inside' ∧
        Guard "while" inside' vs) (Is semicolon))
      (Line.render ⟨depth, "while (" ++ (Expr.ofTokens inside).render ++ ");"⟩) := by
  have hcondition := (hg.prints_condition hi).mono fun z (hz : BreaksInLine z) => hz.1
  refine PrintsLines.line ((hcondition.seq_opens blank_empty hs opens_semicolon).of_eq ?_)
    (fun vs hvs => hvs.ne_nil_right fun _ => Is.ne_nil) depth
  have hend : ");" = ")" ++ ";" := rfl
  rw [String.empty_append, hend]
  simp only [String.append_assoc]
  rfl

/-- A directive is spelled by itself. -/
theorem Leaf.Spelled.of_directive {text : String} {ts : List Token}
    (h : (Leaf.directive text).Spelled types ts) :
    ∃ t, ts = [t] ∧ t.kind = .directive ∧ t.text = text := by
  generalize hcontent : Leaf.directive text = content at h
  cases h with
  | directive hk => cases hcontent; exact ⟨_, rfl, hk, rfl⟩
  | empty | returns | jump => cases hcontent
  | plain => unfold Leaf.ofTokens at hcontent; split at hcontent <;> cases hcontent

/-- A statement that holds no other makes up one line. -/
theorem Leaf.Spelled.printsLines {content : Leaf} {ts : List Token} {next : String}
    {line : Option Nat}
    (h : content.Spelled types ts) (he : Excerpt ts)
    (hd : directiveCount ts ≤ (Stmt.leaf line content).directives.length) (depth : Nat) :
    PrintsLines (SameStmt types (.leaf line content) next ts) (content.render depth).render := by
  have same {vs : List Token} (ha : Alike vs ts) (hs : content.Spelled types vs) :
      SameStmt types (.leaf line content) next ts vs :=
    ⟨ha, .leaf (firstLine vs) content, rfl, .leaf hs⟩
  by_cases hc : ∃ text, content = .directive text
  · obtain ⟨text, rfl⟩ := hc
    obtain ⟨t, rfl, hk, rfl⟩ := h.of_directive
    refine (PrintsLines.directive he.toCopyable hk).imp ?_
    intro _ h
    obtain ⟨v, rfl, hk', ht'⟩ := h
    refine same (.cons hk' ht' (.refl _)) ?_
    rw [← ht']
    exact .directive (hk'.trans hk)
  · -- no directive is counted for any other leaf, so it stands on one line
    have hc' : ∀ text, content ≠ .directive text := fun text ht => hc ⟨text, ht⟩
    have hnone : (Stmt.leaf line content).directives = [] := by
      cases content with
      | directive text => exact absurd rfl (hc' text)
      | returns | jump | declares | evaluates | empty => rfl
    rw [hnone] at hd
    rw [content.render_eq hc']
    have hprints := h.prints (he.inline (by simpa using hd))
    exact (PrintsLines.line hprints (fun vs hvs => hvs.2.ne_nil) depth).imp
      fun vs hvs => same hvs.1 hvs.2

/-- Only the loops that end in their condition have something behind the body, and these are no
spelled heads. -/
theorem Head.Spelled.closing_eq {head : Head} {ts : List Token} (h : head.Spelled ts)
    (depth : Nat) :
    head.closing depth = [] := by
  cases h <;> rfl

/-- A block is the same if its statements are. -/
theorem SameStmt.of_block {opening closing : Token} {items : List Stmt} {printed vs : List Token}
    {next : String} {line : Option Nat} (hk : opening.kind ≠ .directive)
    (ho : opening.text = "\x7b")
    (hc : closing.text = "\x7d")
    (h : Both (Is opening) (Both (SameStmts types items printed) (Is closing)) vs) :
    SameStmt types (.block line items) next (opening :: printed ++ [closing]) vs := by
  obtain ⟨_, _, rfl, ⟨o, rfl, hko, hto⟩, _, _, rfl, ⟨ha, items', hitems, hread⟩, c,
    rfl, hkc, htc⟩ := h
  refine ⟨.cons hko hto (ha.append (.cons hkc htc (.refl _))), .block (some o.line) items', ?_, ?_⟩
  · rw [Stmt.eraseLines, Stmt.eraseLines, hitems]
  · exact .block (hko ▸ hk) (hto.trans ho) (htc.trans hc) hread

/-- A statement under a head is the same if the head and the body are. -/
theorem SameStmt.of_headed {head : Head} {body : Stmt} {before ts printed vs : List Token}
    {next : String} {line : Option Nat} (ha : head.Allows (headText ts) next)
    (hp : headText printed = headText ts)
    (h : Both (fun vs => Alike vs before ∧ head.Spelled vs) (SameStmt types body next printed) vs) :
    SameStmt types (.headed line head body) next (before ++ printed) vs := by
  obtain ⟨before', _, rfl, ⟨hb, hspelled⟩, halike, body', hbody, hread⟩ := h
  refine ⟨hb.append halike, .headed (firstLine before') head body', ?_, .headed hspelled hread ?_⟩
  · rw [Stmt.eraseLines, Stmt.eraseLines, hbody]
  · rw [halike.headText_eq, hp]
    exact ha

/-- The empty statement behind a label that closes its block gets a semicolon. -/
theorem SameStmt.of_lastLabel {text : String} {ts vs : List Token} {line : Option Nat} {body : Stmt}
    (hbody : body.eraseLines = .leaf none .empty)
    (h : Both (fun vs => Alike vs ts ∧ (Head.label text).Spelled vs) (Is insertedSemicolon) vs) :
    SameStmt types (.headed line (.label text) body) "\x7d" (ts ++ [insertedSemicolon]) vs := by
  obtain ⟨ts', _, rfl, ⟨ha, hspelled⟩, v, rfl, hk, ht⟩ := h
  refine ⟨ha.append (.cons hk ht (.refl _)),
    .headed (firstLine ts') (.label text) (.leaf (firstLine [v]) .empty), ?_,
      .headed hspelled ?_ ?_⟩
  · show Stmt.headed none (.label text) (.leaf none .empty)
      = .headed none (.label text) body.eraseLines
    rw [hbody]
  · exact .leaf (.empty (by rw [hk]; simp [insertedSemicolon]) ht)
  · show v.text ≠ "\x7d"
    rw [ht]
    decide

/-- A loop with its condition at the end is the same if its parts are. -/
theorem SameStmt.of_doWhile {word semicolon : Token} {body : Stmt}
    {inside guard printed vs : List Token}
    {next : String} {line : Option Nat} (hk : word.kind ≠ .directive) (hw : word.text = "do")
    (hs : semicolon.text = ";")
    (h : Both (Is word) (Both (SameStmt types body "while" printed)
      (Both (fun vs => Alike vs guard ∧ ∃ inside', SameExpr inside inside' ∧
        Guard "while" inside' vs)
        (Is semicolon))) vs) :
    SameStmt types (.headed line (.doWhile (.ofTokens inside)) body) next
      (word :: printed ++ (guard ++ [semicolon])) vs := by
  obtain ⟨_, _, rfl, ⟨word', rfl, hk', ht'⟩, ts', _, rfl, ⟨ha, body', hbody, hread⟩, guard', _, rfl,
    ⟨hguard, inside', ⟨-, he⟩, hg⟩, e', rfl, hke, hte⟩ := h
  refine ⟨.cons hk' ht' (ha.append (hguard.append (.cons hke hte (.refl _)))),
    .headed (some word'.line) (.doWhile (.ofTokens inside')) body', ?_, ?_⟩
  · rw [Stmt.eraseLines, Stmt.eraseLines, hbody, he]
  · exact .doWhile (hk' ▸ hk) (ht'.trans hw) hread hg (hte.trans hs)

/-- A conditional is the same if its condition and its branches are. -/
theorem SameStmt.of_ifElse {word : Token} {yes no : Stmt}
    {inside guard printed printed' vs : List Token}
    {next : String} {line : Option Nat} (hk : headKind? guard ≠ some .directive)
    (hw : word.text = "else")
    (h : Both (fun vs => Alike vs guard ∧ ∃ inside', SameExpr inside inside' ∧
      Guard "if" inside' vs)
      (Both (SameStmt types yes "else" printed)
        (Both (Is word) (SameStmt types no next printed'))) vs) :
    SameStmt types (.ifElse line (.ofTokens inside) yes no) next
      (guard ++ (printed ++ word :: printed')) vs := by
  obtain ⟨guard', _, rfl, ⟨hguard, inside', ⟨-, he⟩, hg⟩, ts', _, rfl, ⟨ha, yes', hyes, hread⟩,
    _, us',
    rfl, ⟨word', rfl, hk', ht'⟩, ha', no', hno, hread'⟩ := h
  refine ⟨hguard.append (ha.append (.cons hk' ht' ha')),
    .ifElse (firstLine guard') (.ofTokens inside') yes' no', ?_, ?_⟩
  · rw [Stmt.eraseLines, Stmt.eraseLines, hyes, hno, he]
  · exact .ifElse (hguard.headKind?_eq ▸ hk) hg hread (ht'.trans hw) hread'

/-- A list is the same if its first statement and the rest are. -/
theorem SameStmts.of_cons {s : Stmt} {rest : List Stmt} {ts us printed printed' vs : List Token}
    (hs : headText printed = headText ts) (ht : headText ts ≠ "\x7d")
    (hr : textAt printed' "\x7d" = textAt us "\x7d")
    (h : Both (SameStmt types s (textAt us "\x7d") printed) (SameStmts types rest printed') vs) :
    SameStmts types (s :: rest) (printed ++ printed') vs := by
  obtain ⟨ts', us', rfl, ⟨ha, s', hs', hread⟩, ha', rest', hrest', hread'⟩ := h
  have hnext : textAt us' "\x7d" = textAt us "\x7d" := by
    rw [← hr]
    cases printed' with
    | nil => rw [ha'.eq_nil]
    | cons u printed' =>
      obtain ⟨v, us', rfl, -, htext, -⟩ := ha'.exists_cons
      exact htext
  refine ⟨ha.append ha', s' :: rest', ?_, .cons (hnext ▸ hread) ?_ hread'⟩
  · rw [Stmt.eraseLinesOf, Stmt.eraseLinesOf, hs', hrest']
  · rw [ha.headText_eq, hs]
    exact ht

/-! ### Statements -/

mutual

/-- **A statement is read back from its printed lines**, but for their numbers. -/
theorem Stmt.Read.prints {ts printed : List Token} {next : String} (depth : Nat) :
    (s : Stmt) → Stmt.Read types s ts next printed → Excerpt ts →
      directiveCount ts ≤ s.directives.length →
      PrintsLines (SameStmt types s next printed) (textOf (s.lines depth))
  | .leaf _ content, h, he, hd => by
    cases h with
    | leaf h =>
      rw [Stmt.lines, textOf_cons, textOf_nil, String.append_empty]
      exact h.printsLines he hd depth
  | .block _ items, h, he, hd => by
    cases h with
    | @block opening closing _ us printed _ hk ho hc h =>
      have hle := h.directives_le
      simp only [Stmt.directives, List.cons_append, directiveCount_cons, directiveCount_append,
        directiveCount_nil] at hd
      -- the directives of the block are statements, so none is left for the brace
      have hkc : closing.kind ≠ .directive := by
        intro hkc
        rw [if_pos hkc] at hd
        omega
      have hopening := he.head.toCopyable.prints_mark hk ho (by decide) depth
      have hclosing := he.last.toCopyable.prints_mark hkc hc (by decide) depth
      have hitems := Stmt.ReadAll.prints (depth + 1) items h he.init.tail (by omega)
      refine ((hopening.seq (hitems.seq hclosing)).imp
        fun vs hvs => SameStmt.of_block hk ho hc hvs).of_eq ?_
      simp [Stmt.lines]
  | .headed _ head body, h, he, hd => by
    cases h with
    | @headed _ _ before us printed _ hh hb ha =>
      -- no directive is left for the head either
      have hle := hb.directives_le
      simp only [Stmt.directives, directiveCount_append] at hd
      have hline := PrintsLines.line (hh.prints (he.left.inline (by omega)))
        (fun vs hvs => hvs.2.ne_nil) depth
      have hbody := Stmt.Read.prints (if head.indents then Stmt.bodyDepth depth body else depth)
        body hb he.right (by omega)
      refine ((hline.seq hbody).imp fun vs hvs =>
        SameStmt.of_headed ha hb.headText_printed hvs).of_eq ?_
      simp [Stmt.lines, hh.closing_eq]
    | @lastLabel text us hh =>
      -- the empty statement is printed, and the semicolon is read back as one more token
      simp only [Stmt.directives, List.length_nil, Nat.le_zero] at hd
      have hline := PrintsLines.line (hh.prints (he.inline hd)) (fun vs hvs => hvs.2.ne_nil) depth
      have hempty := PrintsLines.line prints_semicolon (fun _ => Is.ne_nil) depth
      refine ((hline.seq hempty).imp fun vs hvs => SameStmt.of_lastLabel rfl hvs).of_eq ?_
      simp [Stmt.lines, Leaf.render, Head.indents, Head.closing]
    | @doWhile word semicolon _ inside guard us printed _ hk hw hb hg hs =>
      have hle := hb.directives_le
      simp only [Stmt.directives, List.cons_append, directiveCount_cons, directiveCount_append,
        directiveCount_nil] at hd
      have hks : semicolon.kind ≠ .directive := by
        intro hks
        rw [if_pos hks] at hd
        omega
      have hword := he.head.toCopyable.prints_mark hk hw (by decide) depth
      have hbody := Stmt.Read.prints (Stmt.bodyDepth depth body) body hb he.tail.left (by omega)
      have hinline := he.tail.right.right.inline (by simp [hks])
      have hsemicolon := hinline.prints_one (by rw [hs]; decide)
      rw [hs] at hsemicolon
      have hlast := hg.prints_while (he.tail.right.left.inline (by omega)) hsemicolon depth
      refine ((hword.seq (hbody.seq hlast)).imp
        fun vs hvs => SameStmt.of_doWhile hk hw hs hvs).of_eq ?_
      simp [Stmt.lines, Head.opening, Head.closing, Head.indents]
  | .ifElse _ _ yes no, h, he, hd => by
    cases h with
    | @ifElse word _ _ inside guard us us' printed printed' _ hk hg hy hw hn =>
      have hle := hy.directives_le
      have hle' := hn.directives_le
      simp only [Stmt.directives, List.length_append, directiveCount_cons,
        directiveCount_append] at hd
      have hkw : word.kind ≠ .directive := by
        intro hkw
        rw [if_pos hkw] at hd
        omega
      have hcondition := hg.prints_if (he.left.inline (by omega)) depth
      have hyes := Stmt.Read.prints (Stmt.bodyDepth depth yes) yes hy he.right.left (by omega)
      have hword := he.right.right.head.toCopyable.prints_mark hkw hw (by decide) depth
      have hno := Stmt.Read.prints (Stmt.bodyDepth depth no) no hn he.right.right.tail (by omega)
      refine ((hcondition.seq (hyes.seq (hword.seq hno))).imp fun vs hvs =>
        SameStmt.of_ifElse hk hw hvs).of_eq ?_
      simp [Stmt.lines]

/-- The statements of a block are read back from their printed lines. -/
theorem Stmt.ReadAll.prints {ts printed : List Token} (depth : Nat) :
    (items : List Stmt) → Stmt.ReadAll types items ts printed → Excerpt ts →
      directiveCount ts ≤ (Stmt.directivesOf items).length →
      PrintsLines (SameStmts types items printed) (textOf (Stmt.linesOf depth items))
  | [], h, _, _ => by
    cases h
    exact PrintsLines.nil ⟨.refl _, [], rfl, .nil⟩
  | s :: rest, h, he, hd => by
    cases h with
    | @cons _ _ us us' printed printed' hs ht hr =>
      have hle := hs.directives_le
      have hle' := hr.directives_le
      simp only [Stmt.directivesOf, List.length_append, directiveCount_append] at hd
      have hfirst := Stmt.Read.prints depth s hs he.left (by omega)
      have hmore := Stmt.ReadAll.prints depth rest hr he.right (by omega)
      refine ((hfirst.seq hmore).imp fun vs hvs =>
        SameStmts.of_cons hs.headText_printed ht (hr.textAt_printed _) hvs).of_eq ?_
      rw [Stmt.linesOf, textOf_append]

end

end WitnessReplay
