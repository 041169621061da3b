import WitnessReplay.Proofs.Replay.Literal
import WitnessReplay.Proofs.Replay.Printable

/-!
# Programs in which a replay works can be printed

Each step of a replay keeps a program printable: a constant stands where a call stood
(`Leaf.Printable.withValue`), and calls are put before a statement and first or last inside it
(`Stmt.Printable.guarded`). None of this changes what a statement begins with, but for the
statement that a call is put before, and no call begins with the `else` that an `if` waits for.
-/

namespace WitnessReplay

open Token

variable {types : List String} {first next : String}

/-! ### Pins -/

/-- A constant is no nondeterministic value, and so nothing is pinned twice. -/
theorem Leaf.nondetSlot?_withValue_constant (content : Leaf) (type value : String) :
    (content.withValue (.constant type value)).nondetSlot? = none := by
  match content with
  | .evaluates (.assign target op e) =>
    rw [withValue, nondetSlot?.eq_def]
    cases target <;> simp [Expr.nondetType?]
  | .declares ⟨text, name, init⟩ =>
    rw [withValue, nondetSlot?.eq_def]
    cases name <;> simp [Expr.nondetType?]
  | .evaluates (.call ..) | .evaluates (.ident _) | .evaluates (.constant ..) | .evaluates (.raw _)
  | .returns _ | .jump _ | .directive _ | .empty => rfl

/-- A leaf with another value is no directive, if it was none. -/
theorem Leaf.withValue_ne_directive {content : Leaf} (h : ∀ text, content ≠ .directive text)
    (e : Expr) (text : String) : content.withValue e ≠ .directive text := by
  rw [withValue.eq_def]
  split
  next => simp
  next => simp
  next => exact h text

/-- **A statement with a constant in the place of its call can be printed.** -/
theorem Leaf.Printable.withValue {content : Leaf} {slot : NondetSlot} {value : String}
    {us : List Token} (h : content.Printable types first) (hslot : content.nondetSlot? = some slot)
    (hv : Operand us value) :
    (content.withValue (.constant slot.type value)).Printable types first := by
  cases h with
  | inserted _ hnone => rw [hslot] at hnone; cases hnone
  | @read _ ts h he hd =>
    obtain ⟨before, equals, call, semicolon, rfl, hne, ht, rfl, hassign, hplain, hends⟩ :=
      h.exists_assigning hslot
    have hinline : Inline (before ++ equals :: call ++ [semicolon]) := by
      refine he.inline (Nat.le_zero.1 (hd.trans_eq ?_))
      rw [Leaf.ofTokens]
      split <;> rfl
    have hequals : Inline ([equals] ++ call) := hinline.left.right
    obtain ⟨vs, hoperand⟩ := exists_operand_constant hslot hv
    have hinner := hassign.inner_withValue hne ht (.constant slot.type value)
    have hprints := hassign.prints hne ht hinline.left.left hequals.left hoperand hplain hends
    have hfirst : headText (before ++ equals :: call ++ [semicolon]) = headText before := by
      rw [List.append_assoc, headText_append_of_ne_nil hne]
    refine .inserted (h.headText_ne he.toCopyable) (nondetSlot?_withValue_constant ..)
      (withValue_ne_directive (Leaf.ofTokens_ne_directive types _) _) ?_
    rw [hinner, hfirst]
    exact hprints

/-! ### Markers -/

/-- The calls of a barrier can be printed. -/
theorem printable_marker {name : String} (hname : name = yieldName ∨ name = releaseName) (seq : Nat)
    (thread : Int) : (marker name seq thread).Printable types name next := by
  have hwritten : Written [ofText .word name] name := by
    rcases hname with rfl | rfl <;> exact written_of_tokenize (by decide +kernel)
  have hbland : Bland name := by rcases hname with rfl | rfl <;> decide
  have hword : name ∉ statementWords := by rcases hname with rfl | rfl <;> decide
  have hbrace : name ≠ "\x7d" := by rcases hname with rfl | rfl <;> decide
  obtain ⟨vs, hthread⟩ := exists_operand_toString thread
  have hseq : Operand [ofText .number (toString seq)] (toString seq) :=
    (numeral_toString seq).operand
  have hinner : (Leaf.evaluates (.call name [.int (toString seq), .int (toString thread)])).inner
      = callText name (toString seq) (toString thread) := by
    simp [Leaf.inner, Expr.render, Expr.renderArguments, Expr.int, callText, String.append_assoc]
  refine .leaf (.inserted hbrace rfl (by simp) ?_)
  rw [hinner]
  exact prints_callStmt types hwritten hbland hword hseq hthread

/-! ### Statements between markers -/

namespace Stmt

/-- Before anything but an `else`, a statement can be printed if it can be printed before some
text. -/
theorem Printable.before {first next : String} (hne : next ≠ "else") {last : String} (s : Stmt)
    (h : s.Printable types first last) : s.Printable types first next := by
  cases s with
  | leaf =>
    cases h with
    | leaf h => exact .leaf h
  | block =>
    cases h with
    | block h => exact .block h
  | headed _ head body =>
    cases h with
    | headed hh hi ha hb =>
      refine .headed hh hi ?_ (Printable.before hne body hb)
      cases head with
      | ifThen => exact hne
      | label => exact ha
      | whileDo | doWhile | forLoop | switch => trivial
    | doWhile hg hi hb => exact .doWhile hg hi hb
  | ifElse _ _ _ no =>
    cases h with
    | ifElse hg hi hy hn => exact .ifElse hg hi hy (Printable.before hne no hn)

variable {m s s' : Stmt} {name : String}

/-- A marker in front of a statement keeps it printable. -/
theorem Printable.prepend (hm : ∀ next, m.Printable types name next)
    (h : s.Printable types first next) : (prepend m s).Printable types "\x7b" next := by
  cases s with
  | block l items =>
    cases h with
    | block h => exact .block (.cons (hm _) h)
  | leaf | headed | ifElse =>
    -- behind the statement there is now a brace, whatever was there
    exact .block (.cons (hm _) (.cons (Printable.before (by decide) _ h) .nil))

/-- A call as the first thing done inside a statement. -/
theorem Printable.enterWith? (hm : ∀ next, m.Printable types name next)
    (h : s.Printable types first next) (he : enterWith? m s = some s') :
    s'.Printable types first next := by
  cases s with
  | leaf => cases he
  | block l items =>
    cases he
    cases h with
    | block h => exact .block (.cons (hm _) h)
  | headed l head body =>
    rw [Stmt.enterWith?] at he
    split at he
    next =>
      cases he
      cases h with
      | headed hh hi ha hb =>
        refine .headed hh hi ?_ (hb.prepend hm)
        -- the body becomes a block, which may stand behind any head
        cases head with
        | label => exact show "\x7b" ≠ "\x7d" by decide
        | ifThen => exact ha
        | whileDo | doWhile | forLoop | switch => trivial
      | doWhile hg hi hb => exact .doWhile hg hi (hb.prepend hm)
    next => cases he
  | ifElse l cond yes no =>
    cases he
    cases h with
    | ifElse hg hi hy hn => exact .ifElse hg hi (hy.prepend hm) (hn.prepend hm)

/-- A statement between the markers of a barrier, and what is behind it. -/
theorem PrintableAll.guarded_cons (seq : Nat) (thread : Int) {rest : List Stmt}
    (h : PrintableAll types first (s :: rest)) :
    PrintableAll types yieldName (guarded seq thread s ++ rest) := by
  have hwaits (next : String) : (marker yieldName seq thread).Printable types yieldName next :=
    printable_marker (.inl rfl) seq thread
  have hfrees (next : String) : (marker releaseName seq thread).Printable types releaseName next :=
    printable_marker (.inr rfl) seq thread
  cases h with
  | @cons _ behind _ _ hs hr =>
    rw [guarded]
    split
    next entered he => exact .cons (hwaits _) (.cons (hs.enterWith? hfrees he) hr)
    next =>
      exact .cons (hwaits _) (.cons (Printable.before (by decide) s hs) (.cons (hfrees _) hr))

/-- Statements behind others may be changed, if those now come before the same text or one that is
no `else`. -/
theorem PrintableAll.splice {rest rest' : List Stmt}
    (hrest : ∀ {first}, PrintableAll types first rest →
      ∃ first', (first' = first ∨ first' ≠ "else") ∧ PrintableAll types first' rest')
    {before : List Stmt} (h : PrintableAll types first (before ++ rest)) :
    ∃ first', (first' = first ∨ first' ≠ "else") ∧ PrintableAll types first' (before ++ rest') := by
  induction before generalizing first with
  | nil => exact hrest h
  | cons s before ih =>
    cases h with
    | cons hs hr =>
      obtain ⟨next, hnext, hr⟩ := ih hr
      refine ⟨first, .inl rfl, .cons ?_ hr⟩
      rcases hnext with rfl | hnext
      · exact hs
      · exact Printable.before hnext s hs

/-- **A block in which a barrier was placed can be printed.** -/
theorem Printable.guarded {l : Option Nat} {before after : List Stmt} (seq : Nat) (thread : Int)
    (h : (Stmt.block l (before ++ s :: after)).Printable types first next) :
    (Stmt.block l (before ++ Stmt.guarded seq thread s ++ after)).Printable types first next := by
  cases h with
  | block h =>
    obtain ⟨_, -, hall⟩ := h.splice fun hrest =>
      ⟨yieldName, .inr (by decide), hrest.guarded_cons seq thread⟩
    rw [List.append_assoc]
    exact .block hall

/-- A statement can be printed after a replacement, if what is put in begins like what was there. -/
theorem Replaced.printable {old new : Stmt} (h : Replaced old new s s')
    (hnew : ∀ {first next}, old.Printable types first next → new.Printable types first next) :
    ∀ {first next}, s.Printable types first next → s'.Printable types first next := by
  induction h with
  | here => exact hnew
  | item _ ih =>
    intro first next hs
    cases hs with
    | block hs =>
      obtain ⟨_, -, hall⟩ := hs.splice fun hrest => by
        cases hrest with
        | cons hs hr => exact ⟨_, .inl rfl, .cons (ih hs) hr⟩
      exact .block hall
  | body _ ih =>
    intro first next hs
    cases hs with
    | headed hh hi ha hb => exact .headed hh hi ha (ih hb)
    | doWhile hg hi hb => exact .doWhile hg hi (ih hb)
  | thenBranch _ ih =>
    intro first next hs
    cases hs with
    | ifElse hg hi hy hn => exact .ifElse hg hi (ih hy) hn
  | elseBranch _ ih =>
    intro first next hs
    cases hs with
    | ifElse hg hi hy hn => exact .ifElse hg hi hy (ih hn)

end Stmt

/-! ### Programs -/

/-- A block is read from its braces and from what is between them. -/
theorem Stmt.Read.exists_of_isBlock {s : Stmt} {ts printed : List Token}
    (h : Stmt.Read types s ts next printed) (hs : s.isBlock = true) :
    ∃ (opening closing : Token) (items : List Stmt) (us us' : List Token),
      opening.text = "\x7b" ∧ closing.text = "\x7d" ∧ s = .block (some opening.line) items ∧
        ts = opening :: us ++ [closing] ∧ printed = opening :: us' ++ [closing] ∧
          Stmt.ReadAll types items us us' := by
  cases h with
  | leaf | headed | lastLabel | doWhile | ifElse => cases hs
  | block hk ho hc h => exact ⟨_, _, _, _, _, ho, hc, rfl, rfl, rfl, h⟩

namespace Program

/-- The top-level items of a program can be printed and read again. -/
inductive PrintableItems : List String → List Item → Prop
  | nil {types : List String} : PrintableItems types []
  | directive {types : List String} {t : Token} {items : List Item} {line : Option Nat}
      (hk : t.kind = .directive) (hc : Copyable [t]) (h : PrintableItems types items) :
      PrintableItems types (.verbatim t.text line :: items)
  | verbatim {types : List String} {before : List Token} {semicolon : Token} {items : List Item}
      {line : Option Nat} (hk : headKind? (before ++ [semicolon]) ≠ some .directive)
      (hs : Stops itemStep (0, "") (texts before) semicolon.text) (ht : semicolon.text = ";")
      (he : Excerpt (before ++ [semicolon]))
      (h : PrintableItems ((typedefName? before).toList ++ types) items) :
      PrintableItems types (.verbatim (Token.verbatim (before ++ [semicolon])) line :: items)
  | function {types : List String} {header : List Token} {body : Stmt} {items : List Item}
      {name : String} {line : Option Nat} (hk : headKind? header ≠ some .directive)
      (hs : Stops itemStep (0, "") (texts header) "\x7b") (he : Excerpt header)
      (hblock : body.isBlock = true) (hb : ∀ next, body.Printable types "\x7b" next)
      (h : PrintableItems types items) :
      PrintableItems types (.function ⟨Token.verbatim header, name, body, line⟩ :: items)

/-- Tokens from which items are read that are printed like others. -/
def RereadsItems (types : List String) (items : List Item) (vs : List Token) : Prop :=
  ∃ items' : List Item, items'.flatMap Item.lines = items.flatMap Item.lines ∧
    ReadItems types items' vs vs

/-- A directive is read back as it was. -/
theorem RereadsItems.of_directive {t : Token} {items : List Item} {vs : List Token}
    {line : Option Nat} (hk : t.kind = .directive)
    (h : Both (Is t) (RereadsItems types items) vs) :
    RereadsItems types (.verbatim t.text line :: items) vs := by
  obtain ⟨_, vs, rfl, ⟨t', rfl, hk', ht'⟩, items', hitems, hread⟩ := h
  refine ⟨.verbatim t'.text t'.line :: items', ?_, .directive (hk'.trans hk) hread⟩
  simp only [List.flatMap_cons, Item.lines, hitems, ht']

theorem RereadsItems.of_verbatim {before vs : List Token} {semicolon : Token} {items : List Item}
    {line : Option Nat} (hk : headKind? (before ++ [semicolon]) ≠ some .directive)
    (hs : Stops itemStep (0, "") (texts before) semicolon.text) (ht : semicolon.text = ";")
    (h : Both (fun vs => Alike vs (before ++ [semicolon]) ∧
        Token.verbatim vs = Token.verbatim (before ++ [semicolon]))
      (RereadsItems ((typedefName? before).toList ++ types) items) vs) :
    RereadsItems types (.verbatim (Token.verbatim (before ++ [semicolon])) line :: items) vs := by
  obtain ⟨copy, vs, rfl, ⟨ha, hv⟩, items', hitems, hread⟩ := h
  obtain ⟨before', last, rfl, hbefore, hlast⟩ := ha.symm.of_append
  obtain ⟨semicolon', rfl, -, hts⟩ := hlast.symm.exists_singleton
  rw [List.append_assoc]
  refine ⟨.verbatim (Token.verbatim (before' ++ [semicolon']))
    (firstLine (before' ++ [semicolon'])) :: items', ?_,
      .verbatim (ha.headKind?_eq ▸ hk) ?_ (hts.trans ht) ?_⟩
  · simp only [List.flatMap_cons, Item.lines, hitems, hv]
  · rw [← hbefore.texts_eq, hts]
    exact hs
  · rw [← typedefName?_alike hbefore]
    exact hread

theorem RereadsItems.of_function {header vs : List Token} {body : Stmt} {items : List Item}
    {name : String} {line : Option Nat} (hk : headKind? header ≠ some .directive)
    (hs : Stops itemStep (0, "") (texts header) "\x7b") (hblock : body.isBlock = true)
    (h : Both (fun vs => Alike vs header ∧ Token.verbatim vs = Token.verbatim header)
      (Both (Rereads types first body next) (RereadsItems types items)) vs) :
    RereadsItems types (.function ⟨Token.verbatim header, name, body, line⟩ :: items) vs := by
  obtain ⟨header', _, rfl, ⟨ha, hv⟩, ts, us, rfl, ⟨-, body', hbody, hread⟩, items', hitems,
    hread'⟩ := h
  obtain ⟨opening, closing, body', us₁, us₂, hto, htc, rfl, rfl, heq, hread⟩ :=
    hread.exists_of_isBlock (hbody.isBlock.trans hblock)
  obtain rfl : us₁ = us₂ := by simpa using heq
  refine ⟨.function ⟨Token.verbatim header', functionName header',
    .block (some opening.line) body', firstLine header'⟩ :: items', ?_, ?_⟩
  · simp only [List.flatMap_cons, Item.lines, hitems, hv, hbody.lines 0]
  · have hread := ReadItems.function (ha.headKind?_eq ▸ hk) (ha.texts_eq ▸ hs) hto htc hread hread'
    simpa using hread

/-- **Top-level items that can be printed are read again** as items that are printed like them. -/
theorem PrintableItems.prints {items : List Item} (h : PrintableItems types items) :
    PrintsLines (RereadsItems types items) (textOf (items.flatMap Item.lines)) := by
  induction h with
  | nil => exact PrintsLines.nil ⟨[], rfl, .nil⟩
  | directive hk hc h ih =>
    have hone := PrintsLines.directive hc hk
    refine ((hone.seq ih).imp fun vs hvs => RereadsItems.of_directive hk hvs).of_eq ?_
    simp [Item.lines]
  | @verbatim types before semicolon items line hk hs ht he h ih =>
    have hlast := he.right.toCopyable.undirected (by rw [ht]; decide)
    have hone := PrintsLines.line (he.toCopyable.prints (by simp) hk fun t ht' => by
      obtain rfl : t = semicolon := by simpa [eq_comm] using ht'
      exact ⟨hlast, by rw [ht]; decide⟩) (fun vs hvs => hvs.1.ne_nil (by simp)) 0
    refine ((hone.seq ih).imp fun vs hvs => RereadsItems.of_verbatim hk hs ht hvs).of_eq ?_
    simp [Item.lines]
  | function hk hs he hblock hb h ih =>
    have hheader := PrintsLines.line (he.toCopyable.prints_header hk hs)
      (fun vs hvs => hvs.1.ne_nil (header_ne_nil hs)) 0
    have hbody := Stmt.Printable.prints 0 _ (hb "")
    refine ((hheader.seq (hbody.seq ih)).imp
      fun vs hvs => RereadsItems.of_function hk hs hblock hvs).of_eq ?_
    simp [Item.lines]

/-- What was read from regular tokens can be printed. -/
theorem ReadItems.printable {items : List Item} {ts printed : List Token}
    (h : ReadItems types items ts printed) (he : Excerpt ts)
    (hd : directiveCount (functionBodies types ts).flatten
      ≤ (items.flatMap Item.directives).length) : PrintableItems types items := by
  induction h with
  | nil => exact .nil
  | directive hk h ih =>
    rw [functionBodies_directive hk] at hd
    exact .directive hk he.head.toCopyable (ih he.tail hd)
  | @verbatim types semicolon items before ts printed hk hs ht h ih =>
    rw [functionBodies_of_verbatim hk hs ht] at hd
    rw [show before ++ semicolon :: ts = before ++ [semicolon] ++ ts by simp] at he
    exact .verbatim hk hs ht he.left (ih he.right hd)
  | @function types opening closing items body header ts us printed printed' hk hs ho hc hb h ih =>
    rw [functionBodies_of_function hk hs ho hc hb] at hd
    have hle := hb.directives_le
    have hle' := h.directives_le
    simp only [List.flatMap_cons, Item.directives, Stmt.directives, List.length_append,
      List.flatten_cons, directiveCount_append] at hd
    have hbody := hb.printable body he.right.tail.left (by omega)
    exact .function hk hs he.left rfl (fun _ => .block hbody)
      (ih he.right.tail.right.tail (by omega))

/-- Items can be printed after a replacement in one of them, if what is put in begins like what was
there. -/
theorem PrintableItems.replaced {before after : List Item} {d : Function} {body old new : Stmt}
    (h : PrintableItems types (before ++ .function d :: after))
    (hreplaced : Stmt.Replaced old new d.body body) (hblock : new.isBlock = old.isBlock)
    (hnew : ∀ {types first next}, old.Printable types first next → new.Printable types first next) :
    PrintableItems types (before ++ .function { d with body } :: after) := by
  induction before generalizing types with
  | nil =>
    cases h with
    | function hk hs he hb hbody h =>
      exact .function hk hs he ((hreplaced.isBlock_eq hblock).trans hb)
        (fun next => hreplaced.printable hnew (hbody next)) h
  | cons item before ih =>
    cases h with
    | directive hk hc h => exact .directive hk hc (ih h)
    | verbatim hk hs ht he h => exact .verbatim hk hs ht he (ih h)
    | function hk hs he hb hbody h => exact .function hk hs he hb hbody (ih h)

/-- A program that can be printed and read again. -/
def Printable (p : Program) : Prop :=
  PrintableItems standardTypes p.items

variable {p q : Program} {pinned : Pinned} {b : Barrier} {target : Stmt}

theorem Replaced.printable {old new : Stmt} (h : Replaced old new p q) (hp : p.Printable)
    (hblock : new.isBlock = old.isBlock)
    (hnew : ∀ {types first next}, old.Printable types first next →
      new.Printable types first next) : q.Printable := by
  obtain ⟨hreplaced⟩ := h
  exact PrintableItems.replaced hp hreplaced hblock hnew

/-- A pin keeps a program printable if its value is an operand. -/
theorem PinnedBy.printable {us : List Token} (h : PinnedBy pinned p q) (hp : p.Printable)
    (hv : Operand us pinned.value) : q.Printable := by
  obtain ⟨hslot, -, hreplaced⟩ := h
  refine hreplaced.printable hp rfl fun hold => ?_
  cases hold with
  | leaf hold => exact .leaf (hold.withValue hslot hv)

/-- A barrier keeps a program printable. -/
theorem GuardedBy.printable (h : GuardedBy b target p q) (hp : p.Printable) : q.Printable := by
  obtain ⟨-, hreplaced⟩ := h
  exact hreplaced.printable hp rfl fun hold => Stmt.Printable.guarded b.seq b.threadId hold

/-- **The text of a program that can be printed is read** as a program that is printed as the same
text. -/
theorem Printable.exists_parse (h : p.Printable) :
    ∃ p', Program.parse p.render = .ok p' ∧ p'.render = p.render := by
  obtain ⟨vs, hvs, items, hlines, hread⟩ := (PrintableItems.prints h).exists_tokenize
  refine ⟨⟨items⟩, ?_, ?_⟩
  · rw [Program.parse, show tokenize p.render = .ok vs from hvs]
    dsimp only
    rw [hread.parse]
  · rw [Program.render, Program.lines, hlines]
    rfl

/-- The value of a pin is one that the assumption speaks of. -/
theorem exists_constraint_of_pin? {assumption : String} {line : Nat}
    (h : p.pin? assumption line = some (q, pinned)) :
    ∃ constraint ∈ Assumption.parse assumption, constraint.value = pinned.value := by
  obtain ⟨place, -, h⟩ := Option.bind_eq_some_iff.1 h
  obtain ⟨t, -, h⟩ := Option.bind_eq_some_iff.1 h
  obtain ⟨slot, -, h⟩ := Option.bind_eq_some_iff.1 h
  obtain ⟨constraint, hconstraint, h⟩ := Option.bind_eq_some_iff.1 h
  cases h
  exact ⟨constraint, List.mem_of_find?_eq_some hconstraint, rfl⟩

end Program

/-! ### Replays -/

/-- The assumption of a step has no quotes. -/
def Transition.Unquoted (step : Transition) : Prop :=
  ∀ assumption ∈ step.metadata.assumption, '\'' ∉ assumption.toList

instance (step : Transition) : Decidable step.Unquoted :=
  inferInstanceAs (Decidable (∀ assumption ∈ step.metadata.assumption, '\'' ∉ assumption.toList))

namespace Session

variable {s next : Session} {step : Transition}

theorem printable_pin (h : s.program.Printable) (hq : step.Unquoted) :
    (s.pin step).program.Printable := by
  rw [pin]
  split
  next coords assumption _ hassumption =>
    split
    next hpin =>
      obtain ⟨constraint, hmem, hvalue⟩ := Program.exists_constraint_of_pin? hpin
      obtain ⟨us, hoperand⟩ := Assumption.exists_operand_of_mem_parse hmem (hq _ hassumption)
      exact (Program.pinnedBy_of_pin? hpin).printable h (hvalue ▸ hoperand)
    next => exact h
  next => exact h

theorem printable_switch (h : s.program.Printable) (hnext : s.switch step = .ok next) :
    next.program.Printable := by
  rcases switch_cases hnext with ⟨-, rfl⟩ | ⟨thread, line, target, q, -, -, hguarded, rfl⟩
  · exact h
  · exact hguarded.printable h

theorem printable_run {steps : List Transition} (h : s.program.Printable)
    (hq : ∀ step ∈ steps, step.Unquoted) : (s.run steps).1.program.Printable :=
  run_induct_of_mem (I := fun s => s.program.Printable) steps
    (fun _ step hstep hs => printable_pin hs (hq step hstep))
    (fun _ _ _ _ hnext hs => printable_switch hs hnext) h

end Session

/-- **A replay leaves a program whose text is read again.** What a replay makes of a program that
was read from a regular source, whether or not it failed, is printed as a text that is read as a
program that is printed as the same text. -/
theorem Program.parse_render_replay {source : String} {p : Program} {ts : List Token}
    (hp : Program.parse source = .ok p) (ht : tokenize source = .ok ts) (hr : Regular ts p)
    {steps : List Transition} (hq : ∀ step ∈ steps, step.Unquoted) :
    ∃ t, Program.parse (p.replay steps).1.program.render = .ok t ∧
      t.render = (p.replay steps).1.program.render := by
  obtain ⟨printed, after, hread, hl⟩ := hr.read hp ht
  have hprintable : p.Printable :=
    ReadItems.printable hread (hr.excerpt hl) (Nat.le_of_eq hr.directives_eq)
  exact (Session.printable_run (s := .start p steps) hprintable hq).exists_parse

theorem parse_render_replay_branchingSource : ∃ p ts, Program.parse branchingSource = .ok p ∧
    tokenize branchingSource = .ok ts ∧ Regular ts p ∧ (∀ step ∈ branchingSteps, step.Unquoted) ∧
      ∃ t, Program.parse (p.replay branchingSteps).1.program.render = .ok t ∧
        t.render = (p.replay branchingSteps).1.program.render := by
  have hall : ∃ p, Program.parse branchingSource = .ok p ∧
      ∃ ts, tokenize branchingSource = .ok ts ∧ Regular ts p := by decide +kernel
  obtain ⟨p, hp, ts, ht, hr⟩ := hall
  have hq : ∀ step ∈ branchingSteps, step.Unquoted := by decide
  exact ⟨p, ts, hp, ht, hr, hq, Program.parse_render_replay hp ht hr hq⟩

end WitnessReplay
