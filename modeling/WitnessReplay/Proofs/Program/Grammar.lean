import WitnessReplay.Proofs.Program.Branching

/-!
# The grammar of programs

`Stmt.Read` relates a statement to the tokens that it was read from, without saying how they were
found. It also says which tokens the statement has when it is printed: they are the same, but for a
label that closes its block. Such a label stands over an empty statement that no token was read for,
and printing gives it a semicolon.

What is read depends on the tokens behind it in two places, the `else` that an `if` waits for and
the brace that closes a block behind a label. So the relation takes the text that comes next.
-/

namespace WitnessReplay

open Token

/-- The line of the first of some tokens. -/
def firstLine (ts : List Token) : Option Nat :=
  ts.head?.map Token.line

/-- The text that comes first in some tokens, or else behind them. -/
def textAt (ts : List Token) (next : String) : String :=
  match ts with
  | [] => next
  | t :: _ => t.text

/-- Tokens with others behind them begin with their own first text, if they have one. -/
theorem headText_append (ts behind : List Token) :
    headText (ts ++ behind) = textAt ts (headText behind) := by
  cases ts <;> rfl

theorem headText_append_of_ne_nil {ts : List Token} (h : ts ≠ []) (behind : List Token) :
    headText (ts ++ behind) = headText ts := by
  cases ts with
  | nil => exact absurd rfl h
  | cons t ts => rfl

/-- The semicolon that is printed for an empty statement without tokens. -/
def insertedSemicolon : Token :=
  ⟨.punctuation, "", ";", 0, 0⟩

/-! ### Phrases -/

/-- A word with some tokens behind it between parentheses. -/
inductive Guard (word : String) (inside : List Token) : List Token → Prop
  | intro {name opening closing : Token} (hn : name.text = word) (ho : opening.text = "(")
      (hc : closing.text = ")") (hs : Stops closingStep 0 (texts inside) ")") :
      Guard word inside (name :: opening :: inside ++ [closing])

/-- A token ends a statement that some tokens make up. -/
def Ends (ts : List Token) (semicolon : Token) : Prop :=
  Stops statementStep 0 (texts ts) semicolon.text

/-- Nothing marks the kind of the statement that some tokens begin. -/
structure Plain (ts : List Token) : Prop where
  kind : headKind? ts ≠ some .directive
  word : headText ts ∉ statementWords
  label : ¬ (headKind? ts = some .word ∧ headText ts.tail = ":")

/-- The tokens of a statement that holds no other. -/
inductive Leaf.Spelled (types : List String) : Leaf → List Token → Prop
  | directive {t : Token} (hk : t.kind = .directive) : Spelled types (.directive t.text) [t]
  | empty {t : Token} (hk : t.kind ≠ .directive) (ht : t.text = ";") : Spelled types .empty [t]
  | returns {t semicolon : Token} {value : List Token} (hk : t.kind ≠ .directive)
      (ht : t.text = "return") (he : Ends value semicolon) :
      Spelled types (.returns (if value.isEmpty then none else some (.ofTokens value)))
        (t :: value ++ [semicolon])
  | jump {t semicolon : Token} {target : List Token} (hk : t.kind ≠ .directive)
      (ht : t.text = "break" ∨ t.text = "continue" ∨ t.text = "goto") (he : Ends target semicolon) :
      Spelled types (.jump (verbatim (t :: target))) (t :: target ++ [semicolon])
  | plain {semicolon : Token} {ts : List Token} (hp : Plain (ts ++ [semicolon]))
      (he : Ends ts semicolon) : Spelled types (Leaf.ofTokens types ts) (ts ++ [semicolon])

/-- The tokens of what stands over a statement, except for a `do`, which also stands behind it. -/
inductive Head.Spelled : Head → List Token → Prop
  | ifThen {inside ts : List Token} (hk : headKind? ts ≠ some .directive)
      (hg : Guard "if" inside ts) : Spelled (.ifThen (.ofTokens inside)) ts
  | whileDo {inside ts : List Token} (hk : headKind? ts ≠ some .directive)
      (hg : Guard "while" inside ts) : Spelled (.whileDo (.ofTokens inside)) ts
  | switch {inside ts : List Token} (hk : headKind? ts ≠ some .directive)
      (hg : Guard "switch" inside ts) : Spelled (.switch (.ofTokens inside)) ts
  | forLoop {inside ts : List Token} (hk : headKind? ts ≠ some .directive)
      (hg : Guard "for" inside ts) : Spelled (.forLoop (verbatim inside)) ts
  | case {t colon : Token} {value : List Token} (hk : t.kind ≠ .directive) (ht : t.text = "case")
      (hs : Stops labelStep 0 (texts value) colon.text) :
      Spelled (.label (verbatim (t :: value ++ [colon]))) (t :: value ++ [colon])
  | word {t colon : Token} (hk : t.kind = .word) (ht : t.text ∉ statementWords)
      (hc : colon.text = ":") : Spelled (.label (verbatim [t, colon])) [t, colon]

/-- What may come first in and behind the statement under a head: an `else` belongs to the nearest
`if`, and a brace behind a label closes the block. -/
def Head.Allows (first next : String) : Head → Prop
  | .ifThen _ => next ≠ "else"
  | .label _ => first ≠ "\x7d"
  | _ => True

/-! ### Statements -/

mutual

/-- A statement is read from some tokens before a text, and these are the tokens that it is
printed as. -/
inductive Stmt.Read (types : List String) : Stmt → List Token → String → List Token → Prop
  | leaf {content : Leaf} {ts : List Token} {next : String} (h : content.Spelled types ts) :
      Stmt.Read types (.leaf (firstLine ts) content) ts next ts
  | block {opening closing : Token} {items : List Stmt} {ts printed : List Token} {next : String}
      (hk : opening.kind ≠ .directive) (ho : opening.text = "\x7b") (hc : closing.text = "\x7d")
      (h : Stmt.ReadAll types items ts printed) :
      Stmt.Read types (.block (some opening.line) items) (opening :: ts ++ [closing]) next
        (opening :: printed ++ [closing])
  | headed {head : Head} {body : Stmt} {before ts printed : List Token} {next : String}
      (hh : head.Spelled before) (hb : Stmt.Read types body ts next printed)
      (ha : head.Allows (headText ts) next) :
      Stmt.Read types (.headed (firstLine before) head body) (before ++ ts) next (before ++ printed)
  | lastLabel {text : String} {ts : List Token} (hh : (Head.label text).Spelled ts) :
      Stmt.Read types (.headed (firstLine ts) (.label text) (.leaf (firstLine ts) .empty)) ts "\x7d"
        (ts ++ [insertedSemicolon])
  | doWhile {word semicolon : Token} {body : Stmt} {inside guard ts printed : List Token}
      {next : String} (hk : word.kind ≠ .directive) (hw : word.text = "do")
      (hb : Stmt.Read types body ts "while" printed) (hg : Guard "while" inside guard)
      (hs : semicolon.text = ";") :
      Stmt.Read types (.headed (some word.line) (.doWhile (.ofTokens inside)) body)
        (word :: ts ++ (guard ++ [semicolon])) next (word :: printed ++ (guard ++ [semicolon]))
  | ifElse {word : Token} {yes no : Stmt} {inside guard ts us printed printed' : List Token}
      {next : String} (hk : headKind? guard ≠ some .directive) (hg : Guard "if" inside guard)
      (hy : Stmt.Read types yes ts "else" printed) (hw : word.text = "else")
      (hn : Stmt.Read types no us next printed') :
      Stmt.Read types (.ifElse (firstLine guard) (.ofTokens inside) yes no)
        (guard ++ (ts ++ word :: us)) next (guard ++ (printed ++ word :: printed'))

/-- The statements of a block are read from some tokens before its closing brace. -/
inductive Stmt.ReadAll (types : List String) : List Stmt → List Token → List Token → Prop
  | nil : Stmt.ReadAll types [] [] []
  | cons {s : Stmt} {rest : List Stmt} {ts us printed printed' : List Token}
      (hs : Stmt.Read types s ts (textAt us "\x7d") printed) (ht : headText ts ≠ "\x7d")
      (hr : Stmt.ReadAll types rest us printed') :
      Stmt.ReadAll types (s :: rest) (ts ++ us) (printed ++ printed')

end

/-! ### Top-level items -/

/-- The top-level items of a program are read from some tokens, and these are the tokens they are
printed as. -/
inductive Program.ReadItems : List String → List Item → List Token → List Token → Prop
  | nil {types : List String} : ReadItems types [] [] []
  | directive {types : List String} {t : Token} {items : List Item} {ts printed : List Token}
      (hk : t.kind = .directive) (h : ReadItems types items ts printed) :
      ReadItems types (.verbatim t.text t.line :: items) (t :: ts) (t :: printed)
  | verbatim {types : List String} {semicolon : Token} {items : List Item}
      {before ts printed : List Token} (hk : headKind? (before ++ [semicolon]) ≠ some .directive)
      (hs : Stops itemStep (0, "") (texts before) semicolon.text) (ht : semicolon.text = ";")
      (h : ReadItems ((typedefName? before).toList ++ types) items ts printed) :
      ReadItems types
        (.verbatim (Token.verbatim (before ++ [semicolon])) (firstLine (before ++ [semicolon]))
          :: items)
        (before ++ semicolon :: ts) (before ++ semicolon :: printed)
  | function {types : List String} {opening closing : Token} {items : List Item} {body : List Stmt}
      {header ts us printed printed' : List Token} (hk : headKind? header ≠ some .directive)
      (hs : Stops itemStep (0, "") (texts header) "\x7b") (ho : opening.text = "\x7b")
      (hc : closing.text = "\x7d") (hb : Stmt.ReadAll types body ts printed)
      (h : ReadItems types items us printed') :
      ReadItems types
        (.function ⟨Token.verbatim header, functionName header, .block (some opening.line) body,
          firstLine header⟩ :: items)
        (header ++ opening :: (ts ++ closing :: us))
        (header ++ opening :: (printed ++ closing :: printed'))

/-- A program is read from some tokens, and these are the tokens it is printed as. -/
def Program.Read (p : Program) (ts printed : List Token) : Prop :=
  Program.ReadItems standardTypes p.items ts printed

/-! ### Phrases are not empty -/

/-- A statement ends in a semicolon. -/
theorem Ends.text {ts : List Token} {semicolon : Token} (h : Ends ts semicolon) :
    semicolon.text = ";" := by
  obtain ⟨depth, hstep⟩ := Stops.last h
  rw [statementStep.eq_def] at hstep
  split at hstep
  next => cases hstep
  split at hstep
  next => split at hstep <;> cases hstep
  split at hstep
  next hs => exact hs.1
  next => cases hstep

/-- A plain statement has a token before its semicolon. -/
theorem Plain.ne_nil {semicolon : Token} {ts : List Token} (hp : Plain (ts ++ [semicolon]))
    (he : Ends ts semicolon) : ts ≠ [] := by
  intro heq
  subst heq
  apply hp.word
  show semicolon.text ∈ statementWords
  rw [he.text]
  simp [statementWords]

variable {types : List String}

theorem Leaf.Spelled.ne_nil {content : Leaf} {ts : List Token} (h : content.Spelled types ts) :
    ts ≠ [] := by
  cases h <;> simp

theorem Head.Spelled.ne_nil {head : Head} {ts : List Token} (h : head.Spelled ts) : ts ≠ [] := by
  cases h with
  | ifThen hk hg | whileDo hk hg | switch hk hg | forLoop hk hg => cases hg; simp
  | case | word => simp

theorem Guard.ne_nil {word : String} {inside ts : List Token} (h : Guard word inside ts) :
    ts ≠ [] := by
  cases h
  simp

theorem Stmt.Read.ne_nil {s : Stmt} {ts printed : List Token} {next : String}
    (h : Stmt.Read types s ts next printed) : ts ≠ [] := by
  cases h with
  | leaf h => exact h.ne_nil
  | headed hh hb ha => simp [hh.ne_nil]
  | lastLabel hh => exact hh.ne_nil
  | ifElse hk hg hy hw hn => simp
  | block | doWhile => simp

end WitnessReplay
