import WitnessReplay.Program.Basic
import WitnessReplay.Program.Bracket
import WitnessReplay.Source.Lexer

/-!
# Reading programs

`Program.parse` reads a C text in two steps, tokens and then a tree. The tree is found by its
skeleton: brackets, semicolons and the words that begin statements. What is inside is an assignment,
a call, a name, a constant or raw text. Whether a statement declares something is guessed from its
first tokens, with the help of the type names that were introduced before it.

A reader of statements returns what it read together with a proof that fewer tokens are left
(`Parsed`). That proof is the whole termination argument.
-/

namespace WitnessReplay

/-! ### Expressions -/

/-- The assignment operators. -/
def assignmentOps : List String :=
  ["=", "+=", "-=", "*=", "/=", "%=", "&=", "|=", "^=", "<<=", ">>="]

/-- Whether a number is taken for an integer constant: it has no point and no exponent. -/
def isIntegerText (text : String) : Bool :=
  let lower := text.toList.map Char.toLower
  let hex := ['0', 'x'].isPrefixOf lower
  !lower.contains '.' && !lower.contains (if hex then 'p' else 'e')

/-- The expression of a single token. -/
def Expr.ofToken (t : Token) : Expr :=
  match t.kind with
  | .word => .ident t.text
  | .number => if isIntegerText t.text then .int t.text else .raw t.text
  | .character => .int t.text
  | _ => .raw t.text

/-- The tokens between the parentheses of a call: there must be a word, then an opening
parenthesis that the last token of the list closes. -/
def callArguments? : List Token → Option (String × List Token)
  | callee :: bracket :: rest =>
    if callee.kind = .word ∧ bracket.text = "(" then
      match Token.splitClosing 0 rest with
      | some (inside, []) => some (callee.text, inside)
      | _ => none
    else none
  | _ => none

theorem callArguments?_length {ts inside : List Token} {callee : String}
    (h : callArguments? ts = some (callee, inside)) : inside.length + 2 < ts.length := by
  unfold callArguments? at h
  split at h
  next callee bracket rest =>
    split at h
    · split at h
      next hs =>
        cases h
        obtain ⟨close, -, rfl⟩ := Token.splitClosing_eq hs
        simp
      · cases h
    · cases h
  · cases h

mutual

/-- The expression that a list of tokens makes up. -/
def Expr.ofTokens (ts : List Token) : Expr :=
  match ts with
  | [] => .raw ""
  | [t] => Expr.ofToken t
  | t :: u :: more =>
    -- the first operator binds weakest, so assignments group to the right
    match ha : Token.splitOutside assignmentOps.contains 0 (t :: u :: more) with
    | some (b :: before, op, after) =>
      have shorter := Token.splitOutside_length ha
      have : before.length + 1 < more.length + 1 + 1 := shorter.1
      have : after.length < more.length + 1 + 1 := shorter.2
      .assign (Expr.ofTokens (b :: before)) op.text (Expr.ofTokens after)
    | _ =>
      -- a comma expression is no call, even where both its ends look like one
      match Token.splitOutside (· == ",") 0 (t :: u :: more) with
      | some _ => .raw (Token.verbatim (t :: u :: more))
      | none =>
        match hc : callArguments? (t :: u :: more) with
        | some (callee, inside) =>
          have : inside.length + 2 < more.length + 1 + 1 := callArguments?_length hc
          .call callee (Expr.arguments inside)
        | none => .raw (Token.verbatim (t :: u :: more))
termination_by 3 * ts.length
decreasing_by
  all_goals simp only [List.length_cons]
  all_goals omega

/-- The arguments of a call: none between empty parentheses, else one more than there are
commas. -/
def Expr.arguments (ts : List Token) : List Expr :=
  match ts with
  | [] => []
  | t :: more => Expr.argumentsOf (t :: more)
termination_by 3 * ts.length + 2

/-- The expressions between the commas of a list of tokens. -/
def Expr.argumentsOf (ts : List Token) : List Expr :=
  match h : Token.splitOutside (· == ",") 0 ts with
  | some (before, _, after) =>
    have := Token.splitOutside_length h
    Expr.ofTokens before :: Expr.argumentsOf after
  | none => [Expr.ofTokens ts]
termination_by 3 * ts.length + 1

end

/-! ### Declarations -/

/-- The words of the language that begin a declaration. -/
def typeWords : List String :=
  ["void", "char", "short", "int", "long", "float", "double", "signed", "unsigned", "_Bool",
    "_Complex", "struct", "union", "enum", "const", "volatile", "static", "extern", "register",
    "auto", "typedef", "inline", "restrict", "_Atomic", "_Thread_local", "__thread", "_Alignas",
    "_Noreturn", "__int128", "_Static_assert", "typeof", "__typeof__"]

/-- The type names that the standard headers introduce. -/
def standardTypes : List String :=
  ["size_t", "ssize_t", "ptrdiff_t", "intptr_t", "uintptr_t", "int8_t", "int16_t", "int32_t",
    "int64_t", "uint8_t", "uint16_t", "uint32_t", "uint64_t", "bool", "wchar_t", "va_list",
    "FILE", "off_t", "time_t", "pthread_t", "pthread_attr_t", "pthread_mutex_t",
    "pthread_mutexattr_t", "pthread_cond_t", "pthread_condattr_t", "pthread_rwlock_t",
    "pthread_spinlock_t", "pthread_barrier_t", "pthread_key_t", "pthread_once_t", "sem_t",
    "atomic_int", "atomic_bool", "atomic_long", "mtx_t", "cnd_t", "thrd_t"]

/-- Whether a text may stand between a type and the star of a declarator. -/
def isPointerPart (text : String) : Bool :=
  text == "*" || text == "const" || text == "volatile"

/-- Whether the tokens of a statement declare something: they begin with a type, with two words
(`T x`), or with a word, a star and a name that ends there or goes on as a declarator (`T *x = …`).
-/
def isDeclaration (types : List String) : List Token → Bool
  | [] => false
  | first :: rest =>
    if typeWords.contains first.text || types.contains first.text then true
    else if first.kind ≠ .word then false
    else
      match rest with
      | [] => false
      | second :: _ =>
        if second.kind = .word then true
        else if isPointerPart second.text then
          match rest.dropWhile fun t => isPointerPart t.text with
          | [] => false
          | name :: behind =>
            name.kind == .word &&
              (behind.isEmpty || ["=", "[", ","].contains (Token.headText behind))
        else false

/-- The name that a declarator ends in. -/
def declaredName? (ts : List Token) : Option String :=
  match ts.getLast? with
  | some t => if t.kind = .word then some t.text else none
  | none => none

/-- The declaration that a list of tokens makes up. The initializer is set apart if there is one
declarator, which is where no comma follows the first equals sign. -/
def Declaration.ofTokens (ts : List Token) : Declaration :=
  match Token.splitOutside (· == "=") 0 ts with
  | some (before, _, after) =>
    match Token.splitOutside (· == ",") 0 after with
    | none => ⟨Token.verbatim before, declaredName? before, some (Expr.ofTokens after)⟩
    | some _ => ⟨Token.verbatim ts, none, none⟩
  | none => ⟨Token.verbatim ts, none, none⟩

/-! ### Statements -/

/-- Something read from the front of a token list, with fewer tokens left. -/
structure Parsed (α : Type) (ts : List Token) where
  value : α
  rest : List Token
  shorter : rest.length < ts.length

/-- Requires a token at the front of a list and gives what is behind it. -/
def expect (text : String) (context : Construct) (ts : List Token) :
    Except ParseError (Parsed Unit ts) :=
  match ts with
  | [] => .error (.endOfInput context)
  | t :: rest =>
    if t.text = text then .ok ⟨(), rest, by simp⟩
    else .error (.unexpected text t.text t.line)

/-- The tokens between parentheses. -/
def parenthesized (context : Construct) (ts : List Token) :
    Except ParseError (Parsed (List Token) ts) :=
  match expect "(" context ts with
  | .error e => .error e
  | .ok bracket =>
    match h : Token.splitClosing 0 bracket.rest with
    | some (inside, after) =>
      .ok ⟨inside, after, by
        obtain ⟨close, -, hrest⟩ := Token.splitClosing_eq h
        have := congrArg List.length hrest
        have := bracket.shorter
        simp only [List.length_append, List.length_cons] at *
        omega⟩
    | none => .error (.endOfInput .brackets)

/-- The tokens of a statement up to its semicolon, where `depth` brackets are open. A bracket that
closes more than was opened cannot belong to the statement. -/
def splitStatement (depth : Nat) (ts : List Token) :
    Except ParseError (Parsed (List Token) ts) :=
  match ts with
  | [] => .error (.endOfInput .statement)
  | t :: rest =>
    let next (d : Nat) : Except ParseError (Parsed (List Token) (t :: rest)) :=
      match splitStatement d rest with
      | .error e => .error e
      | .ok p => .ok ⟨t :: p.value, p.rest, Nat.lt_succ_of_lt p.shorter⟩
    if t.opens then next (depth + 1)
    else if t.closes then
      match depth with
      -- most often the brace of the block, where a semicolon was forgotten
      | 0 => .error (.unexpected ";" t.text t.line)
      | d + 1 => next d
    else if t.text = ";" ∧ depth = 0 then .ok ⟨[], rest, by simp⟩
    else next depth

/-- The tokens of a `case` label behind its first word, through the colon that ends it; `pending`
conditional operators still wait for a colon of their own. -/
def splitLabel (pending : Nat) (ts : List Token) : Except ParseError (Parsed (List Token) ts) :=
  match ts with
  | [] => .error (.endOfInput .label)
  | t :: rest =>
    let next (n : Nat) : Except ParseError (Parsed (List Token) (t :: rest)) :=
      match splitLabel n rest with
      | .error e => .error e
      | .ok p => .ok ⟨t :: p.value, p.rest, Nat.lt_succ_of_lt p.shorter⟩
    if t.text = "?" then next (pending + 1)
    else if t.text = ":" then
      match pending with
      | 0 => .ok ⟨[t], rest, by simp⟩
      | n + 1 => next n
    else if t.text = ";" ∨ t.text = "\x7b" ∨ t.text = "\x7d" then
      .error (.unexpected ":" t.text t.line)
    else next pending

/-- A statement without statements inside, from the tokens before its semicolon. -/
def Leaf.ofTokens (types : List String) (ts : List Token) : Leaf :=
  if isDeclaration types ts then .declares (.ofTokens ts) else .evaluates (.ofTokens ts)

/-- The heads of one condition, by their first words. -/
def conditionalHead? (text : String) : Option (Expr → Head) :=
  if text = "while" then some .whileDo
  else if text = "switch" then some .switch
  else none

mutual

/-- The statement at the front of a token list; `types` are the type names known there. -/
def Stmt.parse (types : List String) (ts : List Token) : Except ParseError (Parsed Stmt ts) :=
  match ts with
  | [] => .error (.endOfInput .statement)
  | t :: rest =>
    if t.kind = .directive then .ok ⟨.leaf t.line (.directive t.text), rest, by simp⟩
    else if t.text = "\x7b" then
      match Stmt.parseItems types rest with
      | .error e => .error e
      | .ok items => .ok ⟨.block t.line items.value, items.rest, Nat.lt_succ_of_lt items.shorter⟩
    else if t.text = ";" then .ok ⟨.leaf t.line .empty, rest, by simp⟩
    else if t.text = "if" then
      match parenthesized .condition rest with
      | .error e => .error e
      | .ok cond =>
        have := cond.shorter
        match Stmt.parse types cond.rest with
        | .error e => .error e
        | .ok yes =>
          have := yes.shorter
          -- the nearest `if` takes the `else`
          if Token.headText yes.rest = "else" then
            match Stmt.parse types yes.rest.tail with
            | .error e => .error e
            | .ok no =>
              .ok ⟨.ifElse t.line (.ofTokens cond.value) yes.value no.value, no.rest, by
                have := no.shorter
                simp only [List.length_tail, List.length_cons] at *
                omega⟩
          else
            .ok ⟨.headed t.line (.ifThen (.ofTokens cond.value)) yes.value, yes.rest, by
              simp only [List.length_cons]
              omega⟩
    else if t.text = "do" then
      match Stmt.parse types rest with
      | .error e => .error e
      | .ok body =>
        match expect "while" .doWhile body.rest with
        | .error e => .error e
        | .ok word =>
          match parenthesized .condition word.rest with
          | .error e => .error e
          | .ok cond =>
            match expect ";" .doWhile cond.rest with
            | .error e => .error e
            | .ok semicolon =>
              .ok ⟨.headed t.line (.doWhile (.ofTokens cond.value)) body.value, semicolon.rest, by
                have := body.shorter
                have := word.shorter
                have := cond.shorter
                have := semicolon.shorter
                simp only [List.length_cons]
                omega⟩
    else if t.text = "for" then
      match parenthesized .forHeader rest with
      | .error e => .error e
      | .ok header =>
        have := header.shorter
        match Stmt.parse types header.rest with
        | .error e => .error e
        | .ok body =>
          .ok ⟨.headed t.line (.forLoop (Token.verbatim header.value)) body.value, body.rest, by
            have := body.shorter
            simp only [List.length_cons]
            omega⟩
    else if t.text = "case" then
      match splitLabel 0 rest with
      | .error e => .error e
      | .ok label =>
        have := label.shorter
        match Stmt.parseLabeled types t.line label.rest with
        | .error e => .error e
        | .ok (body, behind) =>
          .ok ⟨.headed t.line (.label (Token.verbatim (t :: label.value))) body, behind.val, by
            have := behind.property
            simp only [List.length_cons]
            omega⟩
    else if t.text = "return" then
      match splitStatement 0 rest with
      | .error e => .error e
      | .ok p =>
        .ok ⟨.leaf t.line (.returns (if p.value.isEmpty then none else some (.ofTokens p.value))),
          p.rest, Nat.lt_succ_of_lt p.shorter⟩
    else if t.text = "break" ∨ t.text = "continue" ∨ t.text = "goto" then
      match splitStatement 0 rest with
      | .error e => .error e
      | .ok p =>
        .ok ⟨.leaf t.line (.jump (Token.verbatim (t :: p.value))), p.rest,
          Nat.lt_succ_of_lt p.shorter⟩
    else
      match conditionalHead? t.text with
      | some head =>
        match parenthesized .condition rest with
        | .error e => .error e
        | .ok cond =>
          have := cond.shorter
          match Stmt.parse types cond.rest with
          | .error e => .error e
          | .ok body =>
            .ok ⟨.headed t.line (head (.ofTokens cond.value)) body.value, body.rest, by
              have := body.shorter
              simp only [List.length_cons]
              omega⟩
      | none =>
        -- `default` is a word with a colon too
        if t.kind = .word ∧ Token.headText rest = ":" then
          match Stmt.parseLabeled types t.line rest.tail with
          | .error e => .error e
          | .ok (body, behind) =>
            .ok ⟨.headed t.line (.label (Token.verbatim (t :: rest.take 1))) body, behind.val, by
              have := behind.property
              simp only [List.length_tail, List.length_cons] at *
              omega⟩
        else
          match splitStatement 0 (t :: rest) with
          | .error e => .error e
          | .ok p => .ok ⟨.leaf t.line (Leaf.ofTokens types p.value), p.rest, p.shorter⟩
termination_by 2 * ts.length
decreasing_by
  all_goals simp only [List.length_tail, List.length_cons] at *
  all_goals omega

/-- The statement behind a label on a line. A label that closes its block stands over an empty
statement, for which no token is taken. -/
def Stmt.parseLabeled (types : List String) (line : Nat) (ts : List Token) :
    Except ParseError (Stmt × { rest : List Token // rest.length ≤ ts.length }) :=
  if Token.headText ts = "\x7d" then .ok (.leaf line .empty, ⟨ts, Nat.le_refl _⟩)
  else
    match Stmt.parse types ts with
    | .error e => .error e
    | .ok body => .ok (body.value, ⟨body.rest, Nat.le_of_lt body.shorter⟩)
termination_by 2 * ts.length + 1

/-- The statements of a block behind its opening brace, through its closing one. -/
def Stmt.parseItems (types : List String) (ts : List Token) :
    Except ParseError (Parsed (List Stmt) ts) :=
  match ts with
  | [] => .error (.endOfInput .block)
  | t :: rest =>
    if t.text = "\x7d" then .ok ⟨[], rest, by simp⟩
    else
      match Stmt.parse types (t :: rest) with
      | .error e => .error e
      | .ok first =>
        have := first.shorter
        match Stmt.parseItems types first.rest with
        | .error e => .error e
        | .ok more =>
          .ok ⟨first.value :: more.value, more.rest, Nat.lt_trans more.shorter first.shorter⟩
termination_by 2 * ts.length + 1
decreasing_by
  all_goals simp only [List.length_cons] at *
  all_goals omega

end

/-! ### Top-level items -/

/-- Cuts a token list where its first top-level item ends or its body begins: at a semicolon
outside all brackets, or at an opening brace there behind a closing parenthesis. `previous` is the
text of the token before the list. -/
def splitItem (depth : Int) (previous : String) :
    List Token → Option (List Token × Token × List Token)
  | [] => none
  | t :: rest =>
    if t.text = "\x7b" ∧ depth = 0 ∧ previous = ")" then some ([], t, rest)
    else if t.text = ";" ∧ depth = 0 then some ([], t, rest)
    else
      let next := if t.opens then depth + 1 else if t.closes then depth - 1 else depth
      (splitItem next t.text rest).map fun (before, at_, after) => (t :: before, at_, after)

theorem splitItem_eq {depth : Int} {previous : String} {ts before after : List Token} {at_ : Token}
    (h : splitItem depth previous ts = some (before, at_, after)) :
    ts = before ++ at_ :: after := by
  induction ts generalizing depth previous before with
  | nil => cases h
  | cons t rest ih =>
    unfold splitItem at h
    split at h
    · cases h; rfl
    split at h
    · cases h; rfl
    · obtain ⟨⟨before', at', after'⟩, hp, heq⟩ := Option.map_eq_some_iff.1 h
      cases heq
      simp [ih hp]

theorem splitItem_length {depth : Int} {previous : String} {ts before after : List Token}
    {at_ : Token} (h : splitItem depth previous ts = some (before, at_, after)) :
    after.length < ts.length := by
  have := congrArg List.length (splitItem_eq h)
  simp only [List.length_append, List.length_cons] at this
  omega

/-- Of the tokens of a header in reverse, those before the parenthesis that opens `depth` closed
ones. -/
def beforeParameters (depth : Nat) : List Token → Option (List Token)
  | [] => none
  | t :: rest =>
    if t.text = ")" then beforeParameters (depth + 1) rest
    else if t.text = "(" then
      if depth ≤ 1 then some rest else beforeParameters (depth - 1) rest
    else beforeParameters depth rest

/-- The first word that stands before an opening parenthesis. -/
def firstCallee? : List Token → Option String
  | t :: u :: rest =>
    if t.kind = .word ∧ u.text = "(" then some t.text else firstCallee? (u :: rest)
  | _ => none

/-- The name of the function that a header declares: the word before its last parameter list, and
if there is none the first word before any parenthesis. -/
def functionName (header : List Token) : String :=
  let fallback := (firstCallee? header).getD ""
  match beforeParameters 0 header.reverse with
  | some (t :: _) => if t.kind = .word then t.text else fallback
  | _ => fallback

/-- The name in the first declarator of the form `(*name`. -/
def pointerName? : List Token → Option String
  | a :: b :: c :: rest =>
    if a.text = "(" ∧ b.text = "*" ∧ c.kind = .word then some c.text
    else pointerName? (b :: c :: rest)
  | _ => none

/-- The name that a type definition introduces, if the tokens are one. -/
def typedefName? (ts : List Token) : Option String :=
  if Token.headText ts = "typedef" then
    (pointerName? ts).or <|
      (ts.reverse.find? fun t => t.kind = .word && t.text != "typedef").map Token.text
  else none

/-- The top-level items of a token list; `types` are the type names known before it. -/
def parseProgramItems (types : List String) (ts : List Token) : Except ParseError (List Item) :=
  match ts with
  | [] => .ok []
  | t :: rest =>
    if t.kind = .directive then
      match parseProgramItems types rest with
      | .error e => .error e
      | .ok items => .ok (.verbatim t.text t.line :: items)
    else
      match h : splitItem 0 "" (t :: rest) with
      | none => .error (.endOfInput .topLevel)
      | some (before, at_, after) =>
        have : after.length < rest.length + 1 := splitItem_length h
        if at_.text = ";" then
          -- a type definition holds for what follows it
          match parseProgramItems ((typedefName? before).toList ++ types) after with
          | .error e => .error e
          | .ok items => .ok (.verbatim (Token.verbatim (before ++ [at_])) t.line :: items)
        else
          match Stmt.parseItems types after with
          | .error e => .error e
          | .ok body =>
            have := body.shorter
            match parseProgramItems types body.rest with
            | .error e => .error e
            | .ok items =>
              .ok (.function ⟨Token.verbatim before, functionName before,
                .block at_.line body.value, t.line⟩ :: items)
termination_by ts.length

/-- The program that a C text makes up. -/
def Program.parse (source : String) : Except ParseError Program :=
  match tokenize source with
  | .error e => .error e
  | .ok tokens =>
    match parseProgramItems standardTypes tokens with
    | .error e => .error e
    | .ok items => .ok ⟨items⟩

end WitnessReplay
