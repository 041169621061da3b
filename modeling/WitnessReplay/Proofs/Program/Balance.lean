import WitnessReplay.Proofs.Program.Items
import WitnessReplay.Proofs.Source.Relexing

/-!
# How far an accepted program is balanced

The parser counts brackets and looks at no kinds. A statement is read between brackets that pair up
in number (`Stmt.consumes_of_parse`), a declaration or a header only has as many that open as close,
in any order, and in the value of a `case` label nothing is counted at all.
`Program.itemized_of_parse` says this of every program that is read, and that its brackets nest
exactly if none closes one of another kind or none at all, and the values of the labels hold as many
that open as close.

Each of these can fail: an accepted program need not nest (`not_nested_of_parse`).
-/

namespace WitnessReplay

open Token

/-! ### Counting without kinds -/

/-- How many brackets are open behind some tokens, where `depth` are open before them. There is no
answer if a bracket closes none. -/
def depthBehind (depth : Nat) : List Token → Option Nat
  | [] => some depth
  | t :: rest =>
    if t.opens then depthBehind (depth + 1) rest
    else if t.closes then
      match depth with
      | 0 => none
      | d + 1 => depthBehind d rest
    else depthBehind depth rest

/-- Whether the brackets of some tokens pair up, whatever their kinds. -/
def Paired (ts : List Token) : Prop :=
  depthBehind 0 ts = some 0

/-- Whether as many of the brackets of some tokens open as close. -/
def Level (ts : List Token) : Prop :=
  ts.countP opens = ts.countP closes

/-- Whether no bracket of some tokens closes one of another kind, or none. -/
def Ordered (ts : List Token) : Prop :=
  (pendingBehind [] ts).isSome

/-- Brackets are counted from left to right. -/
theorem depthBehind_append {depth : Nat} {ts us : List Token} :
    depthBehind depth (ts ++ us) = (depthBehind depth ts).bind (depthBehind · us) := by
  induction ts generalizing depth with
  | nil => rfl
  | cons t ts ih =>
    rw [List.cons_append, depthBehind.eq_def, depthBehind.eq_def depth (t :: ts)]
    dsimp only
    split
    next => exact ih
    next =>
      split
      next =>
        split
        next => rfl
        next => exact ih
      next => exact ih

/-- Brackets that are open around some tokens stay open. -/
theorem depthBehind_add {depth depth' : Nat} {ts : List Token} (k : Nat)
    (h : depthBehind depth ts = some depth') : depthBehind (depth + k) ts = some (depth' + k) := by
  induction ts generalizing depth with
  | nil =>
    obtain rfl := Option.some.inj h
    rfl
  | cons t ts ih =>
    unfold depthBehind at h ⊢
    split at h
    next ho =>
      rw [if_pos ho, Nat.add_right_comm]
      exact ih h
    next ho =>
      rw [if_neg ho]
      split at h
      next hc =>
        rw [if_pos hc]
        cases depth with
        | zero => cases h
        | succ d =>
          rw [Nat.add_right_comm]
          exact ih h
      next hc =>
        rw [if_neg hc]
        exact ih h

theorem closes_of_opens {t : Token} (h : t.opens = true) : t.closes = false := by
  have htext : t.text = "(" ∨ t.text = "[" ∨ t.text = "\x7b" := by
    simpa [opens, or_assoc] using h
  unfold closes
  rcases htext with htext | htext | htext <;> rw [htext] <;> rfl

/-- The count is as many as open less as many as close. -/
theorem countP_of_depthBehind {depth depth' : Nat} {ts : List Token}
    (h : depthBehind depth ts = some depth') :
    depth + ts.countP opens = depth' + ts.countP closes := by
  -- what is open before the first token and what it adds are open before the rest
  induction ts generalizing depth with
  | nil =>
    obtain rfl := Option.some.inj h
    rfl
  | cons t ts ih =>
    unfold depthBehind at h
    rw [List.countP_cons, List.countP_cons]
    split at h
    next ho =>
      rw [if_pos ho, if_neg (by simp [closes_of_opens ho])]
      have := ih h
      omega
    next ho =>
      rw [if_neg ho]
      split at h
      next hc =>
        rw [if_pos hc]
        cases depth with
        | zero => cases h
        | succ d =>
          have := ih h
          omega
      next hc =>
        rw [if_neg hc]
        exact ih h

/-- Brackets that wait to be closed are open. -/
theorem depthBehind_of_pendingBehind {pending pending' : List String} {ts : List Token}
    (h : pendingBehind pending ts = some pending') :
    depthBehind pending.length ts = some pending'.length := by
  induction ts generalizing pending with
  | nil =>
    obtain rfl := Option.some.inj h
    rfl
  | cons t ts ih =>
    unfold pendingBehind at h
    unfold depthBehind
    split at h
    next ho =>
      rw [if_pos (show t.opens = true from ho)]
      exact ih h
    next ho =>
      rw [if_neg (show ¬ t.opens = true from ho)]
      split at h
      next hc =>
        rw [if_pos (show t.closes = true from hc)]
        -- only the count is kept here, so it does not matter which bracket was expected
        cases pending with
        | nil => cases h
        | cons expected outer =>
          dsimp only at h
          split at h
          next => exact ih h
          next => cases h
      next hc =>
        rw [if_neg (show ¬ t.closes = true from hc)]
        exact ih h

/-- Brackets nest if they are in order and as many open as close. -/
theorem nested_iff {ts : List Token} : Nested ts ↔ Ordered ts ∧ Level ts := by
  unfold Nested Ordered Level
  constructor
  · intro h
    have hcount := countP_of_depthBehind (depthBehind_of_pendingBehind h)
    rw [h]
    simpa using hcount
  · intro ⟨hsome, hlevel⟩
    obtain ⟨pending, hpending⟩ := Option.isSome_iff_exists.1 hsome
    have hcount := countP_of_depthBehind (depthBehind_of_pendingBehind hpending)
    have hnil : pending.length = 0 := by
      rw [List.length_nil] at hcount
      omega
    rw [hpending, List.length_eq_zero_iff.1 hnil]

/-! ### Scans that count -/

/-- What one token does to the count. -/
theorem depthBehind_single (depth : Nat) (t : Token) :
    depthBehind depth [t] = if t.opens then some (depth + 1)
      else if t.closes then (match depth with | 0 => none | d + 1 => some d) else some depth := by
  unfold depthBehind
  cases depth <;> rfl

/-- A scan for a closing bracket counts in the same way. -/
theorem depthBehind_of_closingStep {depth next : Nat} {t : Token}
    (h : closingStep depth t.text = .goOn next) : depthBehind depth [t] = some next := by
  rw [depthBehind_single, opens_eq, closes_eq]
  unfold closingStep at h
  split at h
  next ho => cases h; exact if_pos ho
  next ho =>
    rw [if_neg ho]
    split at h
    next hc =>
      rw [if_pos hc]
      cases depth <;> cases h
      rfl
    next hc => cases h; exact if_neg hc

/-- The scan of a statement counts as the one of a group does. -/
theorem closingStep_of_statementStep {depth next : Nat} {text : String}
    (h : statementStep depth text = .goOn next) : closingStep depth text = .goOn next := by
  -- they differ at a bracket too many and at a semicolon, where this one does not go on
  unfold statementStep at h
  unfold closingStep
  split at h
  next ho => rwa [if_pos ho]
  next ho =>
    rw [if_neg ho]
    split at h
    next hc =>
      rw [if_pos hc]
      cases depth <;> cases h
      rfl
    next hc =>
      rw [if_neg hc]
      split at h
      next => cases h
      next => exact h

/-- A scan that counts brackets stops behind tokens with their number. -/
theorem depthBehind_of_stops {step : Nat → String → Advance Nat} {depth : Nat} {ts : List Token}
    {last : String}
    (hstep : ∀ depth text next, step depth text = .goOn next → closingStep depth text = .goOn next)
    (h : Stops step depth (texts ts) last) :
    ∃ depth', depthBehind depth ts = some depth' ∧ step depth' last = .stop := by
  induction ts generalizing depth with
  | nil => exact ⟨depth, rfl, h⟩
  | cons t ts ih =>
    obtain ⟨next, hnext, hrest⟩ := h
    obtain ⟨depth', hdepth, hstop⟩ := ih hrest
    refine ⟨depth', ?_, hstop⟩
    rw [← List.singleton_append, depthBehind_append,
      depthBehind_of_closingStep (hstep depth t.text next hnext)]
    exact hdepth

/-- What stands inside of a group pairs up, and a bracket closes the group. -/
theorem paired_of_closing {inside : List Token} {closing : Token}
    (h : Stops closingStep 0 (texts inside) closing.text) :
    Paired inside ∧ closing.closes = true := by
  obtain ⟨depth, hdepth, hstop⟩ := depthBehind_of_stops (fun _ _ _ => id) h
  unfold closingStep at hstop
  split at hstop
  next => cases hstop
  next =>
    split at hstop
    next hc =>
      cases depth with
      | zero => exact ⟨hdepth, hc⟩
      | succ d => cases hstop
    next => cases hstop

/-- What stands before the semicolon of a statement pairs up. -/
theorem paired_of_statement {value : List Token} {semicolon : Token}
    (h : Stops statementStep 0 (texts value) semicolon.text) :
    Paired value ∧ semicolon.text = ";" := by
  obtain ⟨depth, hdepth, hstop⟩ :=
    depthBehind_of_stops (fun _ _ _ => closingStep_of_statementStep) h
  unfold statementStep at hstop
  split at hstop
  next => cases hstop
  next =>
    split at hstop
    next => cases depth <;> cases hstop
    next =>
      split at hstop
      next hend =>
        rw [hend.2] at hdepth
        exact ⟨hdepth, hend.1⟩
      next => cases hstop

/-- What stands before the end or the body of a top-level item has as many brackets that open as
close. They may be in any order. -/
theorem level_of_item {depth : Int} {previous last : String} {ts : List Token}
    (h : Stops itemStep (depth, previous) (texts ts) last) :
    depth + ts.countP opens = ts.countP closes := by
  -- the depth is a whole number here, so the scan passes a bracket that closes none
  induction ts generalizing depth previous with
  | nil =>
    have hstop : itemStep (depth, previous) last = .stop := h
    unfold itemStep at hstop
    split at hstop
    next hbody => simpa using hbody.2.1
    next =>
      split at hstop
      next hend => simpa using hend.2
      next => cases hstop
  | cons t ts ih =>
    obtain ⟨next, hstep, hrest⟩ := h
    have hnext : (if isOpening t.text then depth + 1
        else if isClosing t.text then depth - 1 else depth, t.text) = next := by
      unfold itemStep at hstep
      split at hstep
      next => cases hstep
      next =>
        split at hstep
        next => cases hstep
        next => exact Advance.goOn.inj hstep
    rw [← hnext] at hrest
    have := ih hrest
    rw [List.countP_cons, List.countP_cons, opens_eq, closes_eq]
    split at this
    next ho =>
      have hc : isClosing t.text = false := closes_of_opens (t := t) ho
      rw [if_pos ho, if_neg (by simp [hc])]
      push_cast
      omega
    next ho =>
      rw [if_neg ho]
      split at this
      next hc => rw [if_pos hc]; push_cast; omega
      next hc => rw [if_neg hc]; simpa using this

/-! ### What is counted -/

/-- Brackets that pair up in two lists pair up in both together. -/
theorem Paired.append {ts us : List Token} (ht : Paired ts) (hu : Paired us) :
    Paired (ts ++ us) := by
  unfold Paired at ht ⊢
  rw [depthBehind_append, ht]
  exact hu

/-- Brackets around tokens that pair up pair up with them. -/
theorem Paired.group {opening closing : Token} {ts : List Token} (ho : opening.opens = true)
    (ht : Paired ts) (hc : closing.closes = true) : Paired (opening :: ts ++ [closing]) := by
  have hno : ¬ closing.opens = true := by
    intro h
    rw [closes_of_opens h] at hc
    cases hc
  have hopening : depthBehind 0 [opening] = some 1 := by rw [depthBehind_single, if_pos ho]
  have hclosing : depthBehind 1 [closing] = some 0 := by
    rw [depthBehind_single, if_neg hno, if_pos hc]
  -- the opening bracket stays open around all that is inside
  have hinside : depthBehind 1 ts = some 1 := depthBehind_add 1 ht
  unfold Paired
  rw [List.cons_append, ← List.singleton_append, depthBehind_append, hopening, Option.bind_some,
    depthBehind_append, hinside]
  exact hclosing

/-- Whether a text is a bracket. -/
def isBracket (text : String) : Bool :=
  isOpening text || isClosing text

theorem paired_single {t : Token} (h : isBracket t.text = false) : Paired [t] := by
  obtain ⟨ho, hc⟩ := Bool.or_eq_false_iff.1 h
  unfold Paired
  rw [depthBehind_single, opens_eq, closes_eq, ho, hc]
  rfl

/-- Takes the values of some `case` labels out of some tokens: what is kept, and what is in the
values. -/
inductive Sifted : List Token → List Token → List Token → Prop
  | nil : Sifted [] [] []
  | keep {t : Token} {ts kept values : List Token} (h : Sifted ts kept values) :
      Sifted (t :: ts) (t :: kept) values
  | label {word colon : Token} {value ts kept values : List Token} (hword : word.text = "case")
      (hcolon : Stops labelStep 0 (texts value) colon.text) (h : Sifted ts kept values) :
      Sifted (word :: value ++ colon :: ts) (word :: colon :: kept) (value ++ values)

/-- Without labels nothing is sifted out. -/
theorem sifted_self (ts : List Token) : Sifted ts ts [] := by
  induction ts with
  | nil => exact .nil
  | cons t ts ih => exact .keep ih

/-- Lists are sifted part by part. -/
theorem Sifted.append {ts kept values us kept' values' : List Token} (ht : Sifted ts kept values)
    (hu : Sifted us kept' values') : Sifted (ts ++ us) (kept ++ kept') (values ++ values') := by
  induction ht with
  | nil => exact hu
  | keep _ ih => exact .keep ih
  | @label word colon value ts kept values hword hcolon _ ih =>
    have h := Sifted.label hword hcolon ih
    rw [← List.append_assoc] at h
    simpa using h

/-- Sifting neither adds tokens nor loses any. -/
theorem Sifted.countP {ts kept values : List Token} (h : Sifted ts kept values)
    (p : Token → Bool) : ts.countP p = kept.countP p + values.countP p := by
  induction h with
  | nil => rfl
  | keep _ ih =>
    rw [List.countP_cons, List.countP_cons, ih]
    omega
  | label _ _ _ ih =>
    rw [List.cons_append, List.countP_cons, List.countP_append, List.countP_cons, List.countP_cons,
      List.countP_cons, List.countP_append, ih]
    omega

/-! ### Statements -/

theorem isMark_of_isBracket {text : String} (h : isBracket text = true) :
    text.toList.head?.any isMark = true := by
  have htext : (text = "(" ∨ text = "[" ∨ text = "\x7b") ∨
      text = ")" ∨ text = "]" ∨ text = "\x7d" := by
    simpa [isBracket, isOpening, isClosing, or_assoc] using h
  rcases htext with (rfl | rfl | rfl) | rfl | rfl | rfl <;> rfl

/-- Only punctuation is a bracket: a text in quotes is none. -/
theorem Token.Lexical.not_isBracket {ts : List Token} (h : Lexical ts) {t : Token} (ht : t ∈ ts)
    (hk : t.kind ≠ .punctuation) : isBracket t.text = false :=
  Bool.eq_false_iff.2 fun hbracket => hk (h t ht (isMark_of_isBracket hbracket))

theorem Token.Lexical.of_suffix {ts us : List Token} (h : Lexical ts) (hs : us <:+ ts) :
    Lexical us :=
  fun t ht => h t (hs.subset ht)

/-- Some tokens are read up to others. What is read pairs up without the values of its labels. -/
def Consumes (ts rest : List Token) : Prop :=
  ∃ used kept values, ts = used ++ rest ∧ Sifted used kept values ∧ Paired kept

namespace Consumes

variable {ts us vs : List Token} {t : Token}

/-- Reading one thing behind another consumes both. -/
theorem trans (ht : Consumes ts us) (hu : Consumes us vs) : Consumes ts vs := by
  obtain ⟨used, kept, values, rfl, hsifted, hpaired⟩ := ht
  obtain ⟨used', kept', values', rfl, hsifted', hpaired'⟩ := hu
  exact ⟨_, _, _, (List.append_assoc ..).symm, hsifted.append hsifted', hpaired.append hpaired'⟩

/-- What is paired can be consumed as it stands. -/
theorem of_paired (h : Paired ts) : Consumes (ts ++ us) us :=
  ⟨ts, ts, [], rfl, sifted_self ts, h⟩

theorem token (h : isBracket t.text = false) : Consumes (t :: ts) ts :=
  of_paired (paired_single h)

/-- What is left behind is the end of the list. -/
theorem suffix (h : Consumes ts us) : us <:+ ts := by
  obtain ⟨used, -, -, rfl, -, -⟩ := h
  exact List.suffix_append used us

/-- What is left behind of tokens that were read was read too. -/
theorem lexical (h : Consumes ts us) (hts : Lexical ts) : Lexical us :=
  hts.of_suffix h.suffix

/-- A bracket consumes what is between it and the one that closes it. -/
theorem block {closing : Token} (ho : t.opens = true) (h : Consumes ts (closing :: us))
    (hc : closing.closes = true) : Consumes (t :: ts) us := by
  obtain ⟨used, kept, values, rfl, hsifted, hpaired⟩ := h
  refine ⟨t :: used ++ [closing], t :: kept ++ [closing], values, by simp, ?_,
    hpaired.group ho hc⟩
  have h := (Sifted.keep (t := t) hsifted).append (sifted_self [closing])
  rwa [List.append_nil] at h

/-- A condition consumes its parentheses and all between them. -/
theorem parenthesized {context : Construct} {inside : List Token}
    (h : Reads (parenthesized context ts) inside us) : Consumes ts us := by
  obtain ⟨opening, closing, rfl, hopening, hstops⟩ := parenthesized_eq_ok.1 h
  obtain ⟨hinside, hc⟩ := paired_of_closing hstops
  have ho : opening.opens = true := by
    rw [opens_eq, hopening]
    rfl
  have h : Consumes (opening :: inside ++ [closing] ++ us) us := of_paired (hinside.group ho hc)
  simpa using h

/-- A simple statement consumes brackets that pair up, and its semicolon. -/
theorem splitStatement {value : List Token} (h : Reads (splitStatement 0 ts) value us) :
    Consumes ts us := by
  obtain ⟨semicolon, rfl, hstops⟩ := splitStatement_eq_ok.1 h
  obtain ⟨hvalue, hend⟩ := paired_of_statement hstops
  exact (of_paired hvalue).trans (token (by rw [hend]; rfl))

/-- A label consumes its value, in which nothing is counted. -/
theorem case {label : List Token} (ht : t.text = "case")
    (h : Reads (splitLabel 0 ts) label us) : Consumes (t :: ts) us := by
  obtain ⟨value, colon, -, rfl, hstops⟩ := splitLabel_eq_ok.1 h
  have hcolon : colon.text = ":" := by
    obtain ⟨pending, hstop⟩ := hstops.last
    unfold labelStep at hstop
    split at hstop
    next => cases hstop
    next =>
      split at hstop
      next hcolon => exact hcolon
      next => split at hstop <;> cases hstop
  refine ⟨t :: value ++ [colon], [t, colon], value ++ [], by simp, .label ht hstops .nil, ?_⟩
  exact Paired.append (paired_single (by rw [ht]; rfl)) (paired_single (by rw [hcolon]; rfl))

end Consumes

namespace Stmt

variable {types : List String}

mutual

/-- What is read as a statement pairs up without the values of its labels. -/
theorem consumes_of_parse {rest : List Token} {s : Stmt} :
    (ts : List Token) → Reads (Stmt.parse types ts) s rest → Lexical ts → Consumes ts rest
  | [], h, _ => (parse_nil h).elim
  | t :: ts, h, hlex => by
    have htail : Lexical ts := hlex.of_suffix (List.suffix_cons t ts)
    -- a word or a directive is taken by its kind, which tells that it is no bracket
    have htoken (hk : t.kind ≠ .punctuation) : Consumes (t :: ts) ts :=
      .token (hlex.not_isBracket List.mem_cons_self hk)
    cases branch_of_parse h with
    | directive hk => exact htoken (by rw [hk]; decide)
    | empty _ ht => exact .token (by rw [ht]; rfl)
    | block _ ht hitems =>
      obtain ⟨closing, hc, hconsumes⟩ := consumes_of_parseItems ts hitems htail
      exact .block (by rw [opens_eq, ht]; rfl) hconsumes (by rw [closes_eq, hc]; rfl)
    | @ifElse inside behind behind' _ yes no _ ht hcond hyes helse hno =>
      have := hcond.shorter
      have := hyes.shorter
      obtain ⟨word, hword, hbehind⟩ := exists_cons_of_headText helse (by decide)
      have hif : Consumes (t :: ts) ts := .token (by rw [ht]; rfl)
      have hcond := Consumes.parenthesized hcond
      have hyes := consumes_of_parse behind hyes (hcond.lexical htail)
      have helse : Consumes behind' behind'.tail := by
        rw [hbehind]
        exact .token (by rw [hword]; rfl)
      have hlexical := helse.lexical (hyes.lexical (hcond.lexical htail))
      have hno := consumes_of_parse behind'.tail hno hlexical
      exact hif.trans (hcond.trans (hyes.trans (helse.trans hno)))
    | doWhile _ ht hbody hword hcond hs =>
      have hdo : Consumes (t :: ts) ts := .token (by rw [ht]; rfl)
      have hbody := consumes_of_parse ts hbody htail
      have hcond := Consumes.parenthesized hcond
      exact hdo.trans (hbody.trans ((Consumes.token (by rw [hword]; rfl)).trans
        (hcond.trans (.token (by rw [hs]; rfl)))))
    | @ifThen _ behind _ _ _ ht hbefore hbody | @whileDo _ behind _ _ _ ht hbefore hbody
    | @switch _ behind _ _ _ ht hbefore hbody | @forLoop _ behind _ _ _ ht hbefore hbody =>
      have := hbefore.shorter
      have hword : Consumes (t :: ts) ts := .token (by rw [ht]; rfl)
      have hbefore := Consumes.parenthesized hbefore
      have hbody := consumes_of_parse behind hbody (hbefore.lexical htail)
      exact hword.trans (hbefore.trans hbody)
    | @case _ behind _ _ _ ht hlabel hbody =>
      have := hlabel.shorter
      have hlabel := Consumes.case ht hlabel
      rcases hbody with ⟨-, rfl, rfl⟩ | ⟨-, hbody⟩
      · exact hlabel
      · exact hlabel.trans (consumes_of_parse behind hbody (hlabel.lexical hlex))
    | label hk _ hcolon hbody =>
      obtain ⟨colon, hcolon, hts⟩ := exists_cons_of_headText hcolon (by decide)
      have hcolon : Consumes ts ts.tail := by
        rw [hts]
        exact .token (by rw [hcolon]; rfl)
      have hlabel := (htoken (by rw [hk]; decide)).trans hcolon
      rcases hbody with ⟨-, rfl, rfl⟩ | ⟨-, hbody⟩
      · exact hlabel
      · exact hlabel.trans (consumes_of_parse ts.tail hbody (hlabel.lexical hlex))
    | returns _ ht hvalue =>
      have hword : Consumes (t :: ts) ts := .token (by rw [ht]; rfl)
      exact hword.trans (.splitStatement hvalue)
    | jump _ ht hvalue =>
      have hword : Consumes (t :: ts) ts := by
        refine .token ?_
        rcases ht with ht | ht | ht <;> rw [ht] <;> rfl
      exact hword.trans (.splitStatement hvalue)
    | plain _ _ _ hvalue => exact .splitStatement hvalue
termination_by ts => 2 * ts.length
decreasing_by
  all_goals simp only [List.length_tail, List.length_cons] at *
  all_goals omega

/-- What is read as the statements of a block pairs up up to the closing brace. -/
theorem consumes_of_parseItems {rest : List Token} {items : List Stmt} :
    (ts : List Token) → Reads (Stmt.parseItems types ts) items rest → Lexical ts →
      ∃ closing, closing.text = "\x7d" ∧ Consumes ts (closing :: rest)
  | [], h, _ => (parseItems_nil h).elim
  | t :: ts, h, hlex => by
    by_cases ht : t.text = "\x7d"
    · obtain ⟨rfl, rfl⟩ := (parseItems_end ht).1 h
      exact ⟨t, ht, [], [], [], rfl, .nil, rfl⟩
    obtain ⟨first, behind, more, hfirst, hmore, rfl⟩ := (parseItems_cons ht).1 h
    have := hfirst.shorter
    have hfirst := consumes_of_parse (t :: ts) hfirst hlex
    obtain ⟨closing, hc, hmore⟩ := consumes_of_parseItems behind hmore (hfirst.lexical hlex)
    exact ⟨closing, hc, hfirst.trans hmore⟩
termination_by ts => 2 * ts.length + 1
decreasing_by
  all_goals simp only [List.length_cons] at *
  all_goals omega

end

end Stmt

/-! ### Programs -/

/-- The brackets of top-level items one behind the other, and the tokens in the values of labels. In
a declaration and before a body as many brackets open as close. Those of a body pair up without the
values of its labels, between braces. -/
inductive Itemized : List Token → List Token → Prop
  | nil : Itemized [] []
  | directive {t : Token} {ts values : List Token} (hk : t.kind = .directive)
      (ht : isBracket t.text = false) (h : Itemized ts values) : Itemized (t :: ts) values
  | declaration {before ts values : List Token} {semicolon : Token} (hbefore : Level before)
      (hs : semicolon.text = ";") (h : Itemized ts values) :
      Itemized (before ++ semicolon :: ts) values
  | function {header body kept ts values values' : List Token} {opening closing : Token}
      (hheader : Level header) (ho : opening.text = "\x7b") (hbody : Sifted body kept values)
      (hkept : Paired kept) (hc : closing.text = "\x7d") (h : Itemized ts values') :
      Itemized (header ++ opening :: (body ++ closing :: ts)) (values ++ values')

theorem Paired.level {ts : List Token} (h : Paired ts) : Level ts :=
  Nat.add_left_cancel (countP_of_depthBehind h)

/-- What is too many among the brackets of items is in the values of labels. -/
theorem Itemized.countP {ts values : List Token} (h : Itemized ts values) :
    ts.countP opens + values.countP closes = ts.countP closes + values.countP opens := by
  induction h with
  | nil => rfl
  | @directive t ts values _ ht _ ih =>
    have hsingle : Level [t] := (paired_single ht).level
    unfold Level at hsingle
    rw [← List.singleton_append, List.countP_append, List.countP_append]
    omega
  | @declaration before ts values semicolon hbefore hs _ ih =>
    have hsemicolon : Level [semicolon] := (paired_single (by rw [hs]; rfl)).level
    unfold Level at hbefore hsemicolon
    rw [← List.singleton_append, List.countP_append, List.countP_append, List.countP_append,
      List.countP_append]
    omega
  | @function header body kept ts values values' opening closing hheader ho hbody hkept hc _ ih =>
    -- a body has the brackets that are kept of it and those of its values
    have hgroup : Level (opening :: kept ++ [closing]) :=
      (hkept.group (by rw [opens_eq, ho]; rfl) (by rw [closes_eq, hc]; rfl)).level
    have hopens := hbody.countP opens
    have hcloses := hbody.countP closes
    unfold Level at hheader hgroup
    rw [← List.singleton_append, ← List.singleton_append (x := closing)]
    rw [List.cons_append, ← List.singleton_append] at hgroup
    simp only [List.countP_append] at hgroup ⊢
    omega

namespace Program

/-- The items that were read make up the tokens. By induction on their number: each item is cut off
in front, and its braces and labels are counted by what was shown for statements. -/
theorem itemized_of_parseProgramItems {types : List String} {items : List Item} :
    (ts : List Token) → parseProgramItems types ts = .ok items → Lexical ts →
      ∃ values, Itemized ts values
  | [], _, _ => ⟨[], .nil⟩
  | t :: ts, h, hlex => by
    cases itemBranch_of_parse h with
    | directive hk hrest =>
      have htail : Lexical ts := hlex.of_suffix (List.suffix_cons t ts)
      obtain ⟨values, hitems⟩ := itemized_of_parseProgramItems ts hrest htail
      have hbracket := hlex.not_isBracket List.mem_cons_self (by rw [hk]; decide)
      exact ⟨values, .directive hk hbracket hitems⟩
    | @verbatim _ before after semicolon _ _ hs ht hrest =>
      have hshort := splitItem_length hs
      obtain ⟨hts, hstops⟩ := splitItem_eq_some.1 hs
      -- up to the semicolon the brackets of a declaration open and close on one level
      have hlevel := level_of_item hstops
      obtain ⟨values, hitems⟩ :=
        itemized_of_parseProgramItems after hrest (hlex.of_suffix (suffix_of_splitItem hs))
      rw [hts]
      refine ⟨values, .declaration ?_ ht hitems⟩
      unfold Level
      omega
    | @function _ header after behind opening body _ _ hs ht hbody hrest =>
      have hshort := splitItem_length hs
      have hbehind := hbody.shorter
      obtain ⟨hts, hstops⟩ := splitItem_eq_some.1 hs
      have hlevel := level_of_item hstops
      have hafter : Lexical after := hlex.of_suffix (suffix_of_splitItem hs)
      -- the body ends at a brace of its own, and the items go on behind it
      obtain ⟨closing, hc, hconsumes⟩ := Stmt.consumes_of_parseItems after hbody hafter
      have hlexical : Lexical behind :=
        (hconsumes.lexical hafter).of_suffix (List.suffix_cons closing behind)
      obtain ⟨used, kept, values, rfl, hsifted, hpaired⟩ := hconsumes
      obtain ⟨values', hitems⟩ := itemized_of_parseProgramItems behind hrest hlexical
      rw [hts]
      refine ⟨_, .function ?_ (text_of_splitItem hs ht) hsifted hpaired hc hitems⟩
      unfold Level
      omega
termination_by ts => ts.length
decreasing_by
  all_goals simp only [List.length_cons] at *
  all_goals omega

/-- **How far the brackets of an accepted program are balanced.** It is a list of items, in each of
which as many brackets open as close before the body, and those of the body pair up without the
values of its labels. So all of them nest exactly if none closes one of another kind or none, and as
many open as close in the values. -/
theorem itemized_of_parse {source : String} {p : Program} {ts : List Token}
    (hp : Program.parse source = .ok p) (hts : tokenize source = .ok ts) :
    ∃ values, Itemized ts values ∧ (Nested ts ↔ Ordered ts ∧ Level values) := by
  rw [Program.parse, hts] at hp
  dsimp only at hp
  split at hp
  next => cases hp
  next hitems =>
    obtain ⟨values, hitemized⟩ :=
      itemized_of_parseProgramItems ts hitems (lexical_of_tokenize hts)
    refine ⟨values, hitemized, ?_⟩
    have hcount := hitemized.countP
    rw [nested_iff]
    refine and_congr_right fun _ => ?_
    unfold Level
    omega

end Program

/-- A source with brackets in the value of a label. -/
def bracketedSource : String :=
  "int a[2];\nint main(void) \x7b switch (a[0]) \x7b case (1): a[1] = 2; \x7d \x7d"

/-- A source with a parenthesis in the value of a label that nothing closes. -/
def unclosedSource : String :=
  "int main() \x7b switch (x) \x7b case (1: y = 1; \x7d \x7d"

/-- Both sources are accepted. The brackets of the first nest, and so do those in the value of its
label. In the second one bracket too many opens, which can only be in the value of its label; so its
brackets do not nest. -/
theorem itemized_of_parse_labels :
    (∃ p ts values, Program.parse bracketedSource = .ok p ∧ tokenize bracketedSource = .ok ts ∧
      Itemized ts values ∧ Nested ts ∧ Ordered ts ∧ Level values) ∧
    ∃ p ts values, Program.parse unclosedSource = .ok p ∧ tokenize unclosedSource = .ok ts ∧
      Itemized ts values ∧ ¬ Level values ∧ ¬ Nested ts := by
  constructor
  · have hall : ∃ p, Program.parse bracketedSource = .ok p ∧ ∃ ts,
        tokenize bracketedSource = .ok ts ∧ Nested ts := by decide +kernel
    obtain ⟨p, hp, ts, hts, hnested⟩ := hall
    obtain ⟨values, hitemized, hiff⟩ := Program.itemized_of_parse hp hts
    exact ⟨p, ts, values, hp, hts, hitemized, hnested, hiff.1 hnested⟩
  · have hall : ∃ p, Program.parse unclosedSource = .ok p ∧ ∃ ts,
        tokenize unclosedSource = .ok ts ∧ ts.countP opens = ts.countP closes + 1 := by
      decide +kernel
    obtain ⟨p, hp, ts, hts, hmore⟩ := hall
    obtain ⟨values, hitemized, hiff⟩ := Program.itemized_of_parse hp hts
    have hlevel : ¬ Level values := by
      have hcount := hitemized.countP
      unfold Level
      omega
    exact ⟨p, ts, values, hp, hts, hitemized, hlevel, fun hnested => hlevel (hiff.1 hnested).2⟩

/-- A program is accepted with a parenthesis in a label that nothing closes. -/
theorem not_nested_of_parse : ¬ ∀ (source : String) (p : Program) (ts : List Token),
    Program.parse source = .ok p → tokenize source = .ok ts → Nested ts := by
  intro h
  have hall : ∃ p, Program.parse unclosedSource = .ok p ∧ ∃ ts,
      tokenize unclosedSource = .ok ts ∧ ¬ Nested ts := by decide +kernel
  obtain ⟨p, hp, ts, hts, hnested⟩ := hall
  exact hnested (h _ p ts hp hts)

end WitnessReplay
