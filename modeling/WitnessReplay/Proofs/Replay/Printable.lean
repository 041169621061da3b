import WitnessReplay.Proofs.Program.RoundTrip
import WitnessReplay.Proofs.Replay.Insertion

/-!
# Statements that can be printed and read again

A program into which something was put is no longer one that was read, and what is read from its
text need not be the same: a constant with its type comes back as raw text. But it is printed as the
same text. `Stmt.Printable` says of a statement, as the grammar does, that its parts can be printed
and read again, without saying from which tokens; it takes the text that the statement begins with
and the text that comes next. `Stmt.Printable.prints` shows that this is enough.
-/

namespace WitnessReplay

open Token

/-! ### Leaves -/

/-- A statement that holds no other begins with a text and can be printed and read again: it was
read itself, or it was put into the program and prints like one that is read. -/
inductive Leaf.Printable (types : List String) : String → Leaf → Prop
  | read {content : Leaf} {ts : List Token} (h : content.Spelled types ts) (he : Excerpt ts)
      (hd : directiveCount ts ≤ (Stmt.leaf none content).directives.length) :
      Leaf.Printable types (headText ts) content
  | inserted {first : String} {content : Leaf} (hf : first ≠ "\x7d")
      (hslot : content.nondetSlot? = none) (hc : ∀ text, content ≠ .directive text)
      (h : Prints Breaks (RereadsLeaf types first content.inner) (content.inner ++ ";")) :
      Leaf.Printable types first content

/-- A statement that is printed like another one. -/
structure Stmt.PrintsLike (s s' : Stmt) : Prop where
  isBlock : s.isBlock = s'.isBlock
  lines : ∀ depth, s.lines depth = s'.lines depth

namespace Stmt.PrintsLike

variable {s s' : Stmt} {l l' : Option Nat}

/-- Statements that differ in their lines alone are printed alike. -/
theorem of_eraseLines (h : s.eraseLines = s'.eraseLines) : s.PrintsLike s' :=
  ⟨by rw [← isBlock_eraseLines s, h, isBlock_eraseLines],
    fun depth => by rw [← lines_eraseLines, h, lines_eraseLines]⟩

/-- Bodies that are printed alike are printed at the same depth. -/
theorem bodyDepth (h : s.PrintsLike s') (depth : Nat) :
    Stmt.bodyDepth depth s = Stmt.bodyDepth depth s' := by
  rw [Stmt.bodyDepth, Stmt.bodyDepth, h.isBlock]

/-- Blocks are printed alike if their lists are. -/
theorem block {items items' : List Stmt} (h : ∀ depth, linesOf depth items = linesOf depth items') :
    (block l items).PrintsLike (block l' items') :=
  ⟨rfl, fun depth => by rw [Stmt.lines, Stmt.lines, h]⟩

/-- Statements under the same head are printed alike if their bodies are. -/
theorem headed {head : Head} (h : s.PrintsLike s') :
    (headed l head s).PrintsLike (headed l' head s') :=
  ⟨rfl, fun depth => by rw [Stmt.lines, Stmt.lines, h.bodyDepth, h.lines]⟩

/-- Conditionals are printed alike if their branches are. -/
theorem ifElse {cond : Expr} {no no' : Stmt} (h : s.PrintsLike s') (h' : no.PrintsLike no') :
    (ifElse l cond s no).PrintsLike (ifElse l' cond s' no') :=
  ⟨rfl, fun depth => by
    rw [Stmt.lines, Stmt.lines, h.bodyDepth, h'.bodyDepth, h.lines, h'.lines]⟩

end Stmt.PrintsLike

/-- Tokens that begin with a text, and from which a statement is read that prints like another
one. -/
def Rereads (types : List String) (first : String) (s : Stmt) (next : String) (vs : List Token) :
    Prop :=
  headText vs = first ∧ ∃ s' : Stmt, s'.PrintsLike s ∧ Stmt.Read types s' vs next vs

/-- Tokens before a closing brace that begin with a text, and from which statements are read that
print like others. -/
def RereadsAll (types : List String) (first : String) (items : List Stmt) (vs : List Token) : Prop :=
  textAt vs "\x7d" = first ∧ ∃ items' : List Stmt,
    (∀ depth, Stmt.linesOf depth items' = Stmt.linesOf depth items) ∧
      Stmt.ReadAll types items' vs vs

variable {types : List String} {first next : String}

/-- A leaf that can be printed is read back from what it prints. -/
theorem Leaf.Printable.prints {content : Leaf} (h : content.Printable types first)
    (line : Option Nat) (depth : Nat) :
    PrintsLines (Rereads types first (.leaf line content) next) (content.render depth).render := by
  cases h with
  | @read _ ts h he hd =>
    have hlines : PrintsLines (SameStmt types (.leaf none content) next ts)
        (content.render depth).render := h.printsLines he hd depth
    refine hlines.imp fun vs hvs => ?_
    obtain ⟨ha, s', herase, hread⟩ := hvs
    exact ⟨ha.headText_eq, s', .of_eraseLines herase, hread⟩
  | inserted _ _ hc h =>
    rw [content.render_eq hc]
    refine (PrintsLines.line h ?_ depth).imp fun vs hvs => ?_
    · rintro vs ⟨-, content', hspelled, -⟩
      exact hspelled.ne_nil
    · obtain ⟨hfirst, content', hspelled, hc', hinner⟩ := hvs
      refine ⟨hfirst, .leaf (firstLine vs) content', ⟨rfl, fun depth => ?_⟩, .leaf hspelled⟩
      rw [Stmt.lines, Stmt.lines, content'.render_eq hc', content.render_eq hc, hinner]

/-! ### Statements -/

mutual

/-- A statement begins with a text, and can be printed and read again before some other text. -/
inductive Stmt.Printable (types : List String) : String → Stmt → String → Prop
  | leaf {line : Option Nat} {first next : String} {content : Leaf}
      (h : content.Printable types first) :
      Stmt.Printable types first (.leaf line content) next
  | block {line : Option Nat} {first next : String} {items : List Stmt}
      (h : Stmt.PrintableAll types first items) :
      Stmt.Printable types "\x7b" (.block line items) next
  | headed {line : Option Nat} {first next : String} {head : Head} {body : Stmt}
      {before : List Token} (hh : head.Spelled before) (hi : Inline before)
      (ha : head.Allows first next) (hb : Stmt.Printable types first body next) :
      Stmt.Printable types (headText before) (.headed line head body) next
  | doWhile {line : Option Nat} {first next : String} {body : Stmt} {inside guard : List Token}
      (hg : Guard "while" inside guard) (hi : Inline guard)
      (hb : Stmt.Printable types first body "while") :
      Stmt.Printable types "do" (.headed line (.doWhile (.ofTokens inside)) body) next
  | ifElse {line : Option Nat} {first first' next : String} {yes no : Stmt}
      {inside guard : List Token} (hg : Guard "if" inside guard) (hi : Inline guard)
      (hy : Stmt.Printable types first yes "else") (hn : Stmt.Printable types first' no next) :
      Stmt.Printable types "if" (.ifElse line (.ofTokens inside) yes no) next

/-- The statements of a block begin with a text, which is the closing brace if there are none, and
can be printed and read again. -/
inductive Stmt.PrintableAll (types : List String) : String → List Stmt → Prop
  | nil : Stmt.PrintableAll types "\x7d" []
  | cons {first next : String} {s : Stmt} {rest : List Stmt}
      (hs : Stmt.Printable types first s next) (hr : Stmt.PrintableAll types next rest) :
      Stmt.PrintableAll types first (s :: rest)

end

/-! ### What statements begin with -/

/-- A closing brace is punctuation. -/
theorem Token.Copyable.text_ne_brace {t : Token} (h : Copyable [t]) (hk : t.kind ≠ .punctuation) :
    t.text ≠ "\x7d" := by
  intro ht
  obtain ⟨_, _, -, -, -, hstands, -⟩ := h.stood
  by_cases hdirective : t.kind = .directive
  · obtain ⟨-, cs, htext, -⟩ := hstands.of_directive hdirective
    rw [ht] at htext
    cases htext
  · have hlexes := hstands.lexes hdirective
    rw [ht] at hlexes
    cases hlexes with
    | punctuation hkind => exact hk hkind
    | word _ ht hc => cases ht; exact absurd hc (by decide)
    | number _ ht _ hd => cases ht; exact absurd hd (by decide)
    | literal _ ht hq ho =>
      rcases ho with rfl | ⟨mark, hmark, rfl⟩
      · cases ht
        exact absurd hq (by decide)
      · cases ht

/-- No leaf begins with a closing brace. -/
theorem Leaf.Spelled.headText_ne {content : Leaf} {ts : List Token}
    (h : content.Spelled types ts) (hc : Copyable ts) : headText ts ≠ "\x7d" := by
  cases h with
  | directive hk => exact hc.text_ne_brace (by rw [hk]; decide)
  | empty _ ht => exact fun heq => absurd (ht.symm.trans heq) (by decide)
  | returns _ ht => exact fun heq => absurd (ht.symm.trans heq) (by decide)
  | jump _ ht =>
    intro heq
    rcases ht with ht | ht | ht <;> exact absurd (ht.symm.trans heq) (by decide)
  | plain hp he =>
    -- a brace would end the block and not the statement
    obtain ⟨t, ts, rfl⟩ := List.exists_cons_of_ne_nil (hp.ne_nil he)
    obtain ⟨depth, hstep, -⟩ := he
    intro heq
    rw [show t.text = "\x7d" from heq] at hstep
    cases hstep

theorem Head.Spelled.headText_ne {head : Head} {ts : List Token} (h : head.Spelled ts)
    (hc : Copyable ts) : headText ts ≠ "\x7d" := by
  have hguard {word : String} {inside : List Token} (hg : Guard word inside ts)
      (hw : word ≠ "\x7d") : headText ts ≠ "\x7d" := by
    cases hg with
    | intro hn => exact fun heq => hw (hn.symm.trans heq)
  cases h with
  | ifThen _ hg | whileDo _ hg | switch _ hg | forLoop _ hg => exact hguard hg (by decide)
  | case _ ht => exact fun heq => absurd (ht.symm.trans heq) (by decide)
  | word hk => exact hc.left.text_ne_brace (by rw [hk]; decide)

/-- The text of a leaf that can be printed does not begin with a closing brace. -/
theorem Leaf.Printable.first_ne {content : Leaf} (h : content.Printable types first) :
    first ≠ "\x7d" := by
  cases h with
  | read h he => exact h.headText_ne he.toCopyable
  | inserted hf => exact hf

/-- No statement begins with the brace that closes a block. -/
theorem Stmt.Printable.first_ne {s : Stmt} (h : s.Printable types first next) :
    first ≠ "\x7d" := by
  cases h with
  | leaf h => exact h.first_ne
  | headed hh hi => exact hh.headText_ne hi.toCopyable
  | block | doWhile | ifElse => decide

/-! ### Lines -/

/-- A word or a bracket that has a line of its own, and that no token of the source has to stand
for. -/
theorem Written.prints_mark {u : Token} {text : String} (h : Written [u] text) (hne : text ≠ "\\")
    (depth : Nat) : PrintsLines (Is u) (Line.render ⟨depth, text⟩) := by
  obtain ⟨ts, hcopy, hu, ha, rfl⟩ := h
  obtain ⟨t, rfl, hk, ht⟩ := ha.exists_singleton
  have htext : verbatim [t] = t.text := by simp [verbatim, spaced]
  rw [htext] at hne ⊢
  refine PrintsLines.line ((hcopy.prints_one (hu t (by simp)) hne).imp ?_) (fun _ => Is.ne_nil) depth
  rintro _ ⟨v, rfl, hkv, htv⟩
  exact ⟨v, rfl, hkv.trans hk, htv.trans ht⟩

theorem prints_openingBrace (depth : Nat) :
    PrintsLines (Is (ofText .punctuation "\x7b")) (Line.render ⟨depth, "\x7b"⟩) :=
  (written_of_tokenize (by decide +kernel)).prints_mark (by decide) depth

theorem prints_closingBrace (depth : Nat) :
    PrintsLines (Is (ofText .punctuation "\x7d")) (Line.render ⟨depth, "\x7d"⟩) :=
  (written_of_tokenize (by decide +kernel)).prints_mark (by decide) depth

theorem prints_do (depth : Nat) : PrintsLines (Is (ofText .word "do")) (Line.render ⟨depth, "do"⟩) :=
  (written_of_tokenize (by decide +kernel)).prints_mark (by decide) depth

theorem prints_else (depth : Nat) :
    PrintsLines (Is (ofText .word "else")) (Line.render ⟨depth, "else"⟩) :=
  (written_of_tokenize (by decide +kernel)).prints_mark (by decide) depth

/-! ### Reading again -/

/-- Tokens on one line do not begin with a directive. -/
theorem Inline.headKind?_ne {ts : List Token} (h : Inline ts) :
    headKind? ts ≠ some .directive := by
  cases ts with
  | nil => simp [headKind?]
  | cons t ts => exact fun hk => h.undirected t (by simp) (Option.some.inj hk)

/-- A condition begins with its word. -/
theorem Guard.headText_eq {word : String} {inside ts : List Token} (h : Guard word inside ts) :
    headText ts = word := by
  cases h with
  | intro hn => exact hn

section

variable {line : Option Nat} {vs : List Token}

/-- A block is read back from its statements between braces. -/
theorem Rereads.of_block {items : List Stmt}
    (h : Both (Is (ofText .punctuation "\x7b")) (Both (RereadsAll types first items)
      (Is (ofText .punctuation "\x7d"))) vs) :
    Rereads types "\x7b" (.block line items) next vs := by
  obtain ⟨_, _, rfl, ⟨opening, rfl, hko, hto⟩, ts, _, rfl, ⟨-, items', hlines, hread⟩, closing, rfl,
    -, htc⟩ := h
  exact ⟨hto, .block (some opening.line) items', .block hlines,
    .block (by rw [hko]; simp [ofText]) hto htc hread⟩

/-- A statement under a head is read back from the head and the body. -/
theorem Rereads.of_headed {head : Head} {body : Stmt} {before : List Token}
    (ha : head.Allows first next)
    (h : Both (fun vs => Alike vs before ∧ head.Spelled vs) (Rereads types first body next) vs) :
    Rereads types (headText before) (.headed line head body) next vs := by
  obtain ⟨before', ts, rfl, ⟨hb, hspelled⟩, hfirst, body', hbody, hread⟩ := h
  refine ⟨?_, .headed (firstLine before') head body', .headed hbody, .headed hspelled hread ?_⟩
  · rw [headText_append_of_ne_nil hspelled.ne_nil, hb.headText_eq]
  · rw [hfirst]
    exact ha

/-- A loop with its condition at the end is read back from its parts. -/
theorem Rereads.of_doWhile {body : Stmt} {inside guard : List Token}
    (h : Both (Is (ofText .word "do")) (Both (Rereads types first body "while")
      (Both (fun vs => Alike vs guard ∧ ∃ inside', SameExpr inside inside' ∧
        Guard "while" inside' vs) (Is insertedSemicolon))) vs) :
    Rereads types "do" (.headed line (.doWhile (.ofTokens inside)) body) next vs := by
  obtain ⟨_, _, rfl, ⟨word, rfl, hk, ht⟩, ts, _, rfl, ⟨-, body', hbody, hread⟩, guard', _, rfl,
    ⟨-, inside', ⟨-, he⟩, hg⟩, semicolon, rfl, -, hts⟩ := h
  refine ⟨ht, .headed (some word.line) (.doWhile (.ofTokens inside')) body', ?_,
    .doWhile (by rw [hk]; simp [ofText]) ht hread hg hts⟩
  rw [he]
  exact .headed hbody

/-- A conditional with two branches is read back from its parts. -/
theorem Rereads.of_ifElse {yes no : Stmt} {first' : String} {inside guard : List Token}
    (h : Both (fun vs => Alike vs guard ∧ ∃ inside', SameExpr inside inside' ∧
      Guard "if" inside' vs) (Both (Rereads types first yes "else")
        (Both (Is (ofText .word "else")) (Rereads types first' no next))) vs)
    (hi : Inline guard) :
    Rereads types "if" (.ifElse line (.ofTokens inside) yes no) next vs := by
  obtain ⟨guard', _, rfl, ⟨ha, inside', ⟨-, he⟩, hg'⟩, ts, _, rfl, ⟨-, yes', hyes, hread⟩, _, us,
    rfl, ⟨word, rfl, -, ht⟩, -, no', hno, hread'⟩ := h
  refine ⟨?_, .ifElse (firstLine guard') (.ofTokens inside') yes' no', ?_,
    .ifElse (ha.headKind?_eq ▸ hi.headKind?_ne) hg' hread ht hread'⟩
  · rw [headText_append_of_ne_nil hg'.ne_nil, hg'.headText_eq]
  · rw [he]
    exact .ifElse hyes hno

/-- A list is read back from its first statement and the rest, if the first does not look like the
end. -/
theorem RereadsAll.of_cons {s : Stmt} {rest : List Stmt} (hne : first ≠ "\x7d")
    (h : Both (Rereads types first s next) (RereadsAll types next rest) vs) :
    RereadsAll types first (s :: rest) vs := by
  obtain ⟨ts, us, rfl, ⟨hfirst, s', hs, hread⟩, hnext, rest', hrest, hread'⟩ := h
  have htext : textAt (ts ++ us) "\x7d" = headText ts := by
    obtain ⟨t, ts, rfl⟩ := List.exists_cons_of_ne_nil hread.ne_nil
    rfl
  refine ⟨htext.trans hfirst, s' :: rest', fun depth => ?_,
    .cons (hnext ▸ hread) (by rwa [hfirst]) hread'⟩
  rw [Stmt.linesOf, Stmt.linesOf, hs.lines, hrest]

end

/-! ### Printing -/

mutual

/-- **What can be printed is read again** as a statement that is printed like it. -/
theorem Stmt.Printable.prints {first next : String} (depth : Nat) :
    (s : Stmt) → s.Printable types first next →
      PrintsLines (Rereads types first s next) (textOf (s.lines depth))
  | .leaf line content, h => by
    cases h with
    | leaf h =>
      rw [Stmt.lines, textOf_cons, textOf_nil, String.append_empty]
      exact h.prints line depth
  | .block _ items, h => by
    cases h with
    | block h =>
      have hitems := Stmt.PrintableAll.prints (depth + 1) items h
      refine (((prints_openingBrace depth).seq (hitems.seq (prints_closingBrace depth))).imp
        fun vs hvs => Rereads.of_block hvs).of_eq ?_
      simp [Stmt.lines]
  | .headed _ head body, h => by
    cases h with
    | headed hh hi ha hb =>
      have hline := PrintsLines.line (hh.prints hi) (fun vs hvs => hvs.2.ne_nil) depth
      have hbody := Stmt.Printable.prints (if head.indents then Stmt.bodyDepth depth body else depth)
        body hb
      refine ((hline.seq hbody).imp fun vs hvs => Rereads.of_headed ha hvs).of_eq ?_
      simp [Stmt.lines, hh.closing_eq]
    | @doWhile _ _ _ _ inside guard hg hi hb =>
      have hbody := Stmt.Printable.prints (Stmt.bodyDepth depth body) body hb
      have hlast := hg.prints_while hi prints_semicolon depth
      refine (((prints_do depth).seq (hbody.seq hlast)).imp
        fun vs hvs => Rereads.of_doWhile hvs).of_eq ?_
      simp [Stmt.lines, Head.opening, Head.closing, Head.indents]
  | .ifElse _ _ yes no, h => by
    cases h with
    | @ifElse _ _ _ _ _ _ inside guard hg hi hy hn =>
      have hyes := Stmt.Printable.prints (Stmt.bodyDepth depth yes) yes hy
      have hno := Stmt.Printable.prints (Stmt.bodyDepth depth no) no hn
      refine (((hg.prints_if hi depth).seq (hyes.seq ((prints_else depth).seq hno))).imp
        fun vs hvs => Rereads.of_ifElse hvs hi).of_eq ?_
      simp [Stmt.lines]

/-- The statements of a block are read again from their lines. -/
theorem Stmt.PrintableAll.prints {first : String} (depth : Nat) :
    (items : List Stmt) → Stmt.PrintableAll types first items →
      PrintsLines (RereadsAll types first items) (textOf (Stmt.linesOf depth items))
  | [], h => by
    cases h
    exact PrintsLines.nil ⟨rfl, [], fun _ => rfl, .nil⟩
  | s :: rest, h => by
    cases h with
    | cons hs hr =>
      have hfirst := Stmt.Printable.prints depth s hs
      have hmore := Stmt.PrintableAll.prints depth rest hr
      refine ((hfirst.seq hmore).imp fun vs hvs => RereadsAll.of_cons hs.first_ne hvs).of_eq ?_
      rw [Stmt.linesOf, textOf_append]

end

/-! ### What was read -/

/-- An empty statement, for which no token of the source has to stand. -/
theorem Leaf.printable_empty : Leaf.Printable types ";" .empty := by
  refine .inserted (by decide) rfl (by simp) ?_
  refine (prints_semicolon.imp ?_).of_eq rfl
  rintro _ ⟨t, rfl, hk, ht⟩
  exact ⟨ht, .empty, .empty (by rw [hk]; decide) ht, by simp, rfl⟩

mutual

/-- A statement that was read can be printed. -/
theorem Stmt.Read.printable {ts printed : List Token} {next : String} :
    (s : Stmt) → Stmt.Read types s ts next printed → Excerpt ts →
      directiveCount ts ≤ s.directives.length → s.Printable types (headText ts) next
  | .leaf _ content, h, he, hd => by
    cases h with
    | leaf h => exact .leaf (.read h he (by cases content <;> exact hd))
  | .block _ items, h, he, hd => by
    cases h with
    | @block opening closing _ us printed _ hk ho hc h =>
      simp only [Stmt.directives, List.cons_append, directiveCount_cons, directiveCount_append,
        directiveCount_nil] at hd
      -- the directives of a block are those of its list: neither brace is one
      show Stmt.Printable types opening.text _ next
      rw [ho]
      exact .block (Stmt.ReadAll.printable items h he.init.tail (by omega))
  | .headed _ head body, h, he, hd => by
    cases h with
    | @headed _ _ before us printed _ hh hb ha =>
      have hle := hb.directives_le
      simp only [Stmt.directives, directiveCount_append] at hd
      rw [headText_append_of_ne_nil hh.ne_nil]
      exact .headed hh (he.left.inline (by omega)) ha
        (Stmt.Read.printable body hb he.right (by omega))
    | @lastLabel text us hh =>
      simp only [Stmt.directives, List.length_nil, Nat.le_zero] at hd
      have hempty : (";" : String) ≠ "\x7d" := by decide
      exact .headed hh (he.inline hd) hempty (.leaf Leaf.printable_empty)
    | @doWhile word semicolon _ inside guard us printed _ hk hw hb hg hs =>
      have hle := hb.directives_le
      simp only [Stmt.directives, List.cons_append, directiveCount_cons, directiveCount_append,
        directiveCount_nil] at hd
      show Stmt.Printable types word.text _ next
      rw [hw]
      exact .doWhile hg (he.tail.right.left.inline (by omega))
        (Stmt.Read.printable body hb he.tail.left (by omega))
  | .ifElse _ _ yes no, h, he, hd => by
    cases h with
    | @ifElse word _ _ inside guard us us' printed printed' _ hk hg hy hw hn =>
      have hle := hy.directives_le
      have hle' := hn.directives_le
      simp only [Stmt.directives, List.length_append, directiveCount_cons,
        directiveCount_append] at hd
      rw [headText_append_of_ne_nil hg.ne_nil, hg.headText_eq]
      exact .ifElse hg (he.left.inline (by omega))
        (Stmt.Read.printable yes hy he.right.left (by omega))
        (Stmt.Read.printable no hn he.right.right.tail (by omega))

/-- The statements of a block that were read can be printed. -/
theorem Stmt.ReadAll.printable {ts printed : List Token} :
    (items : List Stmt) → Stmt.ReadAll types items ts printed → Excerpt ts →
      directiveCount ts ≤ (Stmt.directivesOf items).length →
      Stmt.PrintableAll types (textAt ts "\x7d") items
  | [], h, _, _ => by
    cases h
    exact .nil
  | s :: rest, h, he, hd => by
    cases h with
    | @cons _ _ us us' printed printed' hs ht hr =>
      have hle := hs.directives_le
      have hle' := hr.directives_le
      simp only [Stmt.directivesOf, List.length_append, directiveCount_append] at hd
      have hfirst : textAt (us ++ us') "\x7d" = headText us := by
        obtain ⟨u, us, rfl⟩ := List.exists_cons_of_ne_nil hs.ne_nil
        rfl
      rw [hfirst]
      exact .cons (Stmt.Read.printable s hs he.left (by omega))
        (Stmt.ReadAll.printable rest hr he.right (by omega))

end

end WitnessReplay
