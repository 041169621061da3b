import WitnessReplay.Proofs.Program.Tape

/-!
# Reading gets on

No reader of a `Tape` is ever stuck. A statement, a block and a function end at a later position
than they began, and on the tape; so every round of the loops over statements and over top-level
items leaves at least one token behind it. An expression is read from a smaller part of the range of
the expression around it. The one place where nothing is read is under a label that closes its
block, and there the label itself has been passed (`Tape.labeled_meets`).

A reader by position `Meets` the reader of lists at the same place: both refuse the text for the
same reason, or both read the same and end at the same place. So `Program.parse`, which is defined
on lists, is the loop over a tape from its first position on. The items that it reads are `Tiled`:
each starts where the one before it stopped, and their ranges make up the whole tape
(`Program.parse_gets_on`).
-/

namespace WitnessReplay

open Token

namespace Tape

variable (tape : Tape)

/-! ### Expressions get on -/

section Expressions

variable {tape} {start stop first last : Nat}

mutual

/-- Every expression inside of another is read from a smaller part of its range, and the same
expression comes about as from the list of tokens. -/
theorem expr_eq_ok (start stop : Nat) (hle : stop ≤ tape.size) :
    tape.expr start stop = .ok (.ofTokens (tape.slice start stop)) := by
  rw [expr]
  match hts : tape.slice start stop with
  | [] => rw [Expr.ofTokens]
  | [t] => rw [Expr.ofTokens]
  | t :: u :: more =>
    dsimp only
    have hlong : 2 ≤ (t :: u :: more).length := by simp
    by_cases hu : Unassigned (t :: u :: more)
    · -- an operator with nothing in front of it assigns nothing
      have hop : (tape.outside? assignmentOps.contains start stop).filter (start < ·) = none := by
        cases hs : splitOutside assignmentOps.contains 0 (tape.slice start stop) with
        | none =>
          rw [outside?_eq_none hs]
          rfl
        | some cut =>
          obtain ⟨before, op, behind⟩ := cut
          obtain rfl := hu (hts ▸ hs)
          rw [outside?_eq_some hs]
          simp
      rw [hop]
      dsimp only
      cases hc : splitOutside (· == ",") 0 (tape.slice start stop) with
      | some cut =>
        obtain ⟨before, comma, behind⟩ := cut
        rw [outside?_eq_some hc, ofTokens_comma hlong hu (hts ▸ hc)]
        rfl
      | none =>
        rw [outside?_eq_none hc, if_neg (by simp)]
        rw [hts] at hc
        cases hcall : callArguments? (t :: u :: more) with
        | none =>
          rw [ofTokens_raw hlong hu hc hcall]
        | some call =>
          obtain ⟨callee, inside⟩ := call
          obtain ⟨hstop, hinside⟩ := slice_call hle (hts ▸ hcall)
          rw [ofTokens_call hlong hu hc hcall]
          dsimp only
          split
          next hempty =>
            rw [List.length_eq_zero_iff.1 (show inside.length = 0 by omega), Expr.arguments]
          next hempty =>
            -- the arguments lie between the parentheses, strictly inside the range of the call
            have harguments := arguments_eq_ok start stop (start + 2) (stop - 1) (by omega)
              (by omega) (by omega) hle
            rw [harguments, hinside, ← arguments_eq (List.length_pos_iff.1 (by omega))]
            rfl
    · obtain ⟨before, op, behind, hs, hne⟩ : ∃ before op behind,
          splitOutside assignmentOps.contains 0 (t :: u :: more) = some (before, op, behind) ∧
            before ≠ [] := by
        simpa [Unassigned] using hu
      have hpos := List.length_pos_iff.2 hne
      obtain ⟨hlt, hbefore, htext, hbehind⟩ := slice_split (hts.trans (splitOutside_eq hs).2)
      -- both sides of an assignment are shorter than the range: the operator belongs to neither
      have htarget := expr_eq_ok start (start + before.length) (by omega)
      have hvalue := expr_eq_ok (start + before.length + 1) stop hle
      rw [outside?_eq_some (hts ▸ hs), Option.filter_some_pos (by simpa using hpos)]
      dsimp only
      rw [inward_eq (by omega) (by omega) (by omega) (by omega), htarget, hbefore, ok_bind,
        inward_eq (by omega) (by omega) (by omega) (by omega), hvalue, hbehind, ok_bind, htext,
        ofTokens_assign hs hne]
      rfl
termination_by (stop - start, 2, 0)

/-- Every argument of a call is read from a smaller part of the range of the call. -/
theorem arguments_eq_ok (start stop first last : Nat) (hstart : start < first)
    (hrange : first ≤ last) (hstop : last ≤ stop) (hle : stop ≤ tape.size) :
    tape.arguments start stop first last = .ok (Expr.argumentsOf (tape.slice first last)) := by
  rw [arguments]
  cases hs : splitOutside (· == ",") 0 (tape.slice first last) with
  | none =>
    have hlast := expr_eq_ok first last (by omega)
    rw [outside?_eq_none hs, argumentsOf_last hs]
    dsimp only
    rw [inward_eq (by omega) hrange hstop (by omega), hlast]
    rfl
  | some cut =>
    obtain ⟨before, comma, behind⟩ := cut
    obtain ⟨hlt, hbefore, -, hbehind⟩ := slice_split (splitOutside_eq hs).2
    have hargument := expr_eq_ok first (first + before.length) (by omega)
    have hmore := arguments_eq_ok start stop (first + before.length + 1) last (by omega) (by omega)
      hstop hle
    rw [outside?_eq_some hs, argumentsOf_cons hs]
    dsimp only
    rw [inward_eq (by omega) (by omega) (by omega) (by omega), hargument, hbefore, ok_bind,
      inward_eq (by omega) (by omega) (by omega) (by omega), hmore, hbehind, ok_bind]
    rfl
termination_by (stop - start, 1, last - first)

end

end Expressions

/-! ### Declarations and leaves -/

section Leaves

variable {tape} {types : List String} {start stop : Nat}

/-- A declaration is read from a stretch of the tape as from its tokens. -/
theorem declaration_eq_ok (hle : stop ≤ tape.size) :
    tape.declaration start stop = .ok (.ofTokens (tape.slice start stop)) := by
  rw [declaration, Declaration.ofTokens]
  cases hs : splitOutside (· == "=") 0 (tape.slice start stop) with
  | none =>
    rw [outside?_eq_none hs]
  | some cut =>
    obtain ⟨before, sign, behind⟩ := cut
    obtain ⟨hlt, hbefore, -, hbehind⟩ := slice_split (splitOutside_eq hs).2
    rw [outside?_eq_some hs]
    dsimp only
    cases hc : splitOutside (· == ",") 0 (tape.slice (start + before.length + 1) stop) with
    | none =>
      rw [outside?_eq_none hc, expr_eq_ok _ _ hle, hbefore, hbehind, ← hbehind, hc]
      rfl
    | some cut =>
      obtain ⟨first, comma, more⟩ := cut
      rw [outside?_eq_some hc, ← hbehind, hc]
      rfl

theorem leaf_eq_ok (hle : stop ≤ tape.size) :
    tape.leaf types start stop = .ok (.ofTokens types (tape.slice start stop)) := by
  rw [leaf, Leaf.ofTokens, declaration_eq_ok hle, expr_eq_ok _ _ hle]
  split <;> rfl

end Leaves

/-! ### Readers that meet -/

/-- A reader by position and a reader of lists, which begin at the same place, come to the same:
both refuse the text for the same reason, or both read the same, and end at the same place, which is
a later position of the tape. -/
inductive Meets (tape : Tape) (pos : Nat) {α : Type} {ts : List Token} :
    Except ReadError (α × Nat) → Except ParseError (Parsed α ts) → Prop
  | read {value : α} {next : Nat} {shorter : (tape.after next).length < ts.length}
      (hlt : pos < next) (hle : next ≤ tape.size) :
      Meets tape pos (.ok (value, next)) (.ok ⟨value, tape.after next, shorter⟩)
  | refused {e : ParseError} : Meets tape pos (.error (.text e)) (.error e)

/-- A reader by position refuses the text, or it ends at a later position of the tape. -/
inductive Advances (tape : Tape) (pos : Nat) {α : Type} : Except ReadError (α × Nat) → Prop
  | read {value : α} {next : Nat} (hlt : pos < next) (hle : next ≤ tape.size) :
      Advances tape pos (.ok (value, next))
  | refused {e : ParseError} : Advances tape pos (.error (.text e))

namespace Meets

variable {tape} {pos pos' : Nat} {α β : Type} {ts us : List Token}
  {r : Except ReadError (α × Nat)} {r' : Except ParseError (Parsed α ts)}

/-- Readers that part at the same condition meet if they meet on both sides of it. -/
theorem ite {condition : Prop} [Decidable condition] {a b : Except ReadError (α × Nat)}
    {a' b' : Except ParseError (Parsed α ts)} (hthen : condition → Meets tape pos a a')
    (helse : ¬ condition → Meets tape pos b b') :
    Meets tape pos (if condition then a else b) (if condition then a' else b') := by
  by_cases h : condition
  · rw [if_pos h, if_pos h]
    exact hthen h
  · rw [if_neg h, if_neg h]
    exact helse h

/-- Where two readers meet, those that go on behind them meet if they do behind what was read. -/
theorem bind {f : α × Nat → Except ReadError (β × Nat)} {s : Except ParseError (Parsed β us)}
    (h : Meets tape pos r r') (hrefused : ∀ e, r' = .error e → s = .error e)
    (hread : ∀ value next shorter, r' = .ok ⟨value, tape.after next, shorter⟩ → pos < next →
      next ≤ tape.size → Meets tape pos' (f (value, next)) s) : Meets tape pos' (r >>= f) s := by
  cases h with
  | read hlt hle => exact hread _ _ _ rfl hlt hle
  | refused =>
    rw [hrefused _ rfl]
    exact .refused

/-- A reader that goes on at a later position is not stuck. -/
theorem onward_bind {next : Nat} {go : pos < next → next ≤ tape.size → Except ReadError (α × Nat)}
    {f : α × Nat → Except ReadError (β × Nat)} {s : Except ParseError (Parsed β us)}
    (hlt : pos < next) (hle : next ≤ tape.size) (h : Meets tape next (go hlt hle) r')
    (hrefused : ∀ e, r' = .error e → s = .error e)
    (hread : ∀ value behind shorter, r' = .ok ⟨value, tape.after behind, shorter⟩ →
      next < behind → behind ≤ tape.size → Meets tape pos' (f (value, behind)) s) :
    Meets tape pos' (tape.onward pos next go >>= f) s := by
  rw [onward_eq hlt hle]
  exact h.bind hrefused hread

/-- What meets a reader of tokens advances. -/
theorem advances (h : Meets tape pos r r') : Advances tape pos r := by
  cases h with
  | read hlt hle => exact .read hlt hle
  | refused => exact .refused

end Meets

/-- A reading that advances does so with whatever comes behind it. -/
theorem Advances.bind {tape : Tape} {pos pos' : Nat} {α β : Type} {r : Except ReadError (α × Nat)}
    {f : α × Nat → Except ReadError (β × Nat)} (h : Advances tape pos r)
    (hread : ∀ value next, pos < next → next ≤ tape.size → Advances tape pos' (f (value, next))) :
    Advances tape pos' (r >>= f) := by
  cases h with
  | read hlt hle => exact hread _ _ hlt hle
  | refused => exact .refused

section Scans

variable {tape} {pos pos' : Nat} {β : Type} {ts us : List Token} {text : String}
  {context : Construct} {f : Nat → Except ReadError (β × Nat)}
  {s : Except ParseError (Parsed β us)}

/-- An expected text and what is read behind it. Where the text is not there both readers fail
alike. -/
theorem expect_bind (hts : tape.after pos = ts)
    (hrefused : ∀ e, WitnessReplay.expect text context ts = .error e → s = .error e)
    (hread : ∀ shorter,
      WitnessReplay.expect text context ts = .ok ⟨(), tape.after (pos + 1), shorter⟩ →
      pos < tape.size → Meets tape pos' (f (pos + 1)) s) :
    Meets tape pos' (tape.expect text context pos >>= f) s := by
  rw [expect, hts]
  cases ts with
  | nil =>
    rw [hrefused _ rfl]
    exact .refused
  | cons t rest =>
    obtain rfl := after_succ hts
    dsimp only
    by_cases ht : t.text = text
    · rw [if_pos ht]
      exact hread _ (if_pos ht) (lt_size hts)
    · rw [if_neg ht, hrefused _ (if_neg ht)]
      exact .refused

/-- A parenthesis that is not closed is an error. -/
theorem parenthesized_unclosed {t : Token} {rest : List Token} (ht : t.text = "(")
    (hs : splitClosing 0 rest = none) :
    parenthesized context (t :: rest) = .error (.endOfInput .brackets) := by
  have hexpect : WitnessReplay.expect "(" context (t :: rest) = .ok ⟨(), rest, by simp⟩ := if_pos ht
  unfold parenthesized
  rw [hexpect]
  dsimp only
  split
  next hs' => rw [hs] at hs'; cases hs'
  next => rfl

/-- A condition and what is read behind it. -/
theorem closing_bind (hts : tape.after pos = ts)
    (hrefused : ∀ e, parenthesized context ts = .error e → s = .error e)
    (hread : ∀ close shorter, parenthesized context ts
        = .ok ⟨tape.slice (pos + 1) close, tape.after (close + 1), shorter⟩ →
      pos < close → close < tape.size → Meets tape pos' (f close) s) :
    Meets tape pos' (tape.closing context pos >>= f) s := by
  rw [closing, expect, hts]
  -- where no parenthesis opens, the tokens are refused in the same way
  cases ts with
  | nil =>
    rw [hrefused _ rfl]
    exact .refused
  | cons t rest =>
    obtain rfl := after_succ hts
    dsimp only
    by_cases ht : t.text = "("
    · rw [if_pos ht, ok_bind]
      cases hs : splitClosing 0 (tape.after (pos + 1)) with
      | none =>
        rw [hrefused _ (parenthesized_unclosed ht hs)]
        exact .refused
      | some cut =>
        obtain ⟨inside, behind⟩ := cut
        obtain ⟨closing, hsplit, hstops⟩ := splitClosing_eq_some.1 hs
        have hreads : Reads (parenthesized context (t :: tape.after (pos + 1))) inside behind :=
          parenthesized_eq_ok.2 ⟨t, closing, by rw [hsplit]; rfl, ht, hstops⟩
        rw [← slice_of_after hsplit, ← after_succ (after_add hsplit)] at hreads
        obtain ⟨shorter, hp⟩ := hreads.eq_ok
        exact hread _ shorter hp (by omega) (add_length_lt hsplit)
    · have hp : parenthesized context (t :: tape.after (pos + 1))
          = .error (.unexpected "(" t.text t.line) := by
        rw [parenthesized, WitnessReplay.expect, if_neg ht]
      rw [if_neg ht, hrefused _ hp]
      exact .refused

/-- A condition is the expression between the two parentheses. -/
theorem condition_bind {f : Nat → Expr → Except ReadError (β × Nat)} (hts : tape.after pos = ts)
    (hrefused : ∀ e, parenthesized context ts = .error e → s = .error e)
    (hread : ∀ close shorter, parenthesized context ts
        = .ok ⟨tape.slice (pos + 1) close, tape.after (close + 1), shorter⟩ →
      pos < close → close < tape.size →
      Meets tape pos' (f close (.ofTokens (tape.slice (pos + 1) close))) s) :
    Meets tape pos'
      (tape.closing context pos >>= fun close => tape.expr (pos + 1) close >>= f close) s := by
  refine closing_bind hts hrefused fun close shorter hp hclose hbound => ?_
  rw [expr_eq_ok _ _ (by omega)]
  exact hread close shorter hp hclose hbound

/-- The end of a statement and what is read behind it. -/
theorem statementEnd_bind (hts : tape.after pos = ts)
    (hrefused : ∀ e, splitStatement 0 ts = .error e → s = .error e)
    (hread : ∀ semicolon shorter, splitStatement 0 ts
        = .ok ⟨tape.slice pos semicolon, tape.after (semicolon + 1), shorter⟩ →
      pos ≤ semicolon → semicolon < tape.size → Meets tape pos' (f semicolon) s) :
    Meets tape pos' (tape.statementEnd pos >>= f) s := by
  obtain rfl := hts
  unfold statementEnd
  cases hp : splitStatement 0 (tape.after pos) with
  | error e =>
    rw [hrefused e hp]
    exact .refused
  | ok p =>
    have hreads := Reads.of_eq hp
    obtain ⟨semicolon, hsplit, -⟩ := splitStatement_eq_ok.1 hreads
    rw [← slice_of_after hsplit, ← after_succ (after_add hsplit)] at hreads
    obtain ⟨shorter, hvalue⟩ := hreads.eq_ok
    exact hread _ shorter hvalue (by omega) (add_length_lt hsplit)

/-- The end of a label and what is read behind it. -/
theorem labelEnd_bind (hts : tape.after pos = ts)
    (hrefused : ∀ e, splitLabel 0 ts = .error e → s = .error e)
    (hread : ∀ behind shorter, splitLabel 0 ts
        = .ok ⟨tape.slice pos behind, tape.after behind, shorter⟩ →
      pos < behind → behind ≤ tape.size → Meets tape pos' (f behind) s) :
    Meets tape pos' (tape.labelEnd pos >>= f) s := by
  obtain rfl := hts
  unfold labelEnd
  cases hp : splitLabel 0 (tape.after pos) with
  | error e =>
    rw [hrefused e hp]
    exact .refused
  | ok p =>
    have hreads := Reads.of_eq hp
    obtain ⟨before, colon, hvalue, hts, -⟩ := splitLabel_eq_ok.1 hreads
    have hsplit : tape.after pos = p.value ++ p.rest := by
      rw [hvalue]
      simpa using hts
    have hlength : p.value.length = before.length + 1 := by
      rw [hvalue]
      simp
    have hlt := add_length_lt hts
    rw [← slice_of_after hsplit, ← after_add hsplit] at hreads
    obtain ⟨shorter, hlabel⟩ := hreads.eq_ok
    exact hread _ shorter hlabel (by omega) (by omega)

end Scans

/-! ### Statements get on -/

section Statements

variable {tape} {types : List String}

/-- A block is read as a list behind its brace. -/
theorem block_eq {pos : Nat} {t : Token} {rest : List Token} (hts : tape.after pos = t :: rest)
    (ht : t.text = "\x7b") :
    tape.block types pos = tape.statements types (pos + 1) >>= fun (items, next) =>
      .ok (.block t.line items, next) := by
  rw [block, expect, hts]
  dsimp only
  rw [if_pos ht, ok_bind, onward_eq (by omega) (lt_size hts)]
  rfl

mutual

/-- A statement inside of another begins at a later position, and the same statement is read as from
the list of tokens. -/
theorem statement_meets (pos : Nat) {ts : List Token} (hts : tape.after pos = ts) :
    Meets tape pos (tape.statement types pos) (Stmt.parse types ts) := by
  rw [statement]
  match ts, hts with
  | [], hts =>
    rw [hts, Stmt.parse]
    exact .refused
  | t :: rest, hts =>
    have hlt := lt_size hts
    obtain rfl := after_succ hts
    rw [hts, Stmt.parse]
    dsimp only
    refine .ite (fun _ => .read (by omega) hlt) fun _ => ?_
    -- a directive is done; the kinds that follow are tried in the order of the parser
    refine .ite (fun hbrace => ?_) fun _ => ?_
    · rw [block_eq hts hbrace]
      refine (statements_meets (pos + 1) rfl).bind (fun e he => by rw [he])
        fun items next _ hitems hlt hnext => ?_
      rw [hitems]
      exact .read (by omega) hnext
    refine .ite (fun _ => .read (by omega) hlt) fun _ => ?_
    -- `if`: a condition, a branch, and a second one if `else` comes next
    refine .ite (fun hif => ?_) fun _ => ?_
    · refine condition_bind rfl (fun e he => by rw [he]) fun close _ hcond hclose hbound => ?_
      rw [hcond]
      dsimp only
      refine .onward_bind (by omega) hbound (statement_meets (close + 1) rfl)
        (fun e he => by rw [he]) fun yes next _ hyes hlt hnext => ?_
      rw [hyes]
      refine .ite (fun helse => ?_) fun _ => .read (by omega) hnext
      refine .onward_bind (by omega) (lt_size_of_text helse (by decide))
        (statement_meets (next + 1) tail_after.symm) (fun e he => by rw [he])
        fun no behind _ hno hlt hbehind => ?_
      rw [hno]
      exact .read (by omega) hbehind
    -- `do`: the body first, and the condition between two fixed tokens
    refine .ite (fun hdo => ?_) fun _ => ?_
    · refine .onward_bind (by omega) hlt (statement_meets (pos + 1) rfl) (fun e he => by rw [he])
        fun body next _ hbody hlt hnext => ?_
      rw [hbody]
      dsimp only
      refine expect_bind rfl (fun e he => by rw [he]) fun _ hword hwhile => ?_
      rw [hword]
      dsimp only
      refine condition_bind rfl (fun e he => by rw [he]) fun close _ hcond hclose hbound => ?_
      rw [hcond]
      dsimp only
      refine expect_bind rfl (fun e he => by rw [he]) fun _ hsemicolon hend => ?_
      rw [hsemicolon]
      exact .read (by omega) hend
    refine .ite (fun hfor => ?_) fun _ => ?_
    · refine closing_bind rfl (fun e he => by rw [he]) fun close _ hheader hclose hbound => ?_
      rw [hheader]
      dsimp only
      refine .onward_bind (by omega) hbound (statement_meets (close + 1) rfl)
        (fun e he => by rw [he]) fun body next _ hbody hlt hnext => ?_
      rw [hbody]
      exact .read (by omega) hnext
    -- a label may stand in front of a closing brace, with no statement behind it
    refine .ite (fun hcase => ?_) fun _ => ?_
    · refine labelEnd_bind rfl (fun e he => by rw [he]) fun behind _ hlabel hbehind hbound => ?_
      rw [hlabel, onward_eq (by omega) hbound, slice_cons hts (by omega)]
      dsimp only
      refine labeled_meets behind (by omega) hbound rfl (fun e he => by rw [he])
        fun body next _ hbody => ?_
      rw [hbody]
      exact ⟨_, rfl⟩
    refine .ite (fun hreturn => ?_) fun _ => ?_
    · refine statementEnd_bind rfl (fun e he => by rw [he])
        fun semicolon _ hvalue hsemicolon hbound => ?_
      rw [hvalue, expr_eq_ok _ _ (by omega)]
      dsimp only
      rw [isEmpty_slice (by omega)]
      by_cases hnone : semicolon ≤ pos + 1
      · rw [if_pos hnone, decide_eq_true hnone]
        exact .read (by omega) hbound
      · rw [if_neg hnone, decide_eq_false hnone]
        exact .read (by omega) hbound
    refine .ite (fun hjump => ?_) fun _ => ?_
    · refine statementEnd_bind rfl (fun e he => by rw [he])
        fun semicolon _ hvalue hsemicolon hbound => ?_
      rw [hvalue, slice_cons hts (by omega)]
      exact .read (by omega) hbound
    -- `while` and `switch` are read alike
    cases hhead : conditionalHead? t.text with
    | some head =>
      refine condition_bind rfl (fun e he => by rw [he]) fun close _ hcond hclose hbound => ?_
      rw [hcond]
      dsimp only
      refine .onward_bind (by omega) hbound (statement_meets (close + 1) rfl)
        (fun e he => by rw [he]) fun body next _ hbody hlt hnext => ?_
      rw [hbody]
      exact .read (by omega) hnext
    | none =>
      refine .ite (fun hlabel => ?_) fun _ => ?_
      · have hbound := lt_size_of_text hlabel.2 (by decide)
        -- a word and a colon: the label is two tokens long
        have htake : tape.slice (pos + 1) (pos + 2) = (tape.after (pos + 1)).take 1 := by
          rw [slice, show pos + 2 - (pos + 1) = 1 by omega]
        rw [onward_eq (by omega) hbound, slice_cons hts (by omega), htake]
        refine labeled_meets (pos + 2) (by omega) hbound tail_after.symm (fun e he => by rw [he])
          fun body next _ hbody => ?_
        rw [hbody]
        exact ⟨_, rfl⟩
      · refine statementEnd_bind hts (fun e he => by rw [he])
          fun semicolon _ hvalue hsemicolon hbound => ?_
        rw [hvalue, leaf_eq_ok (by omega)]
        exact .read (by omega) hbound
termination_by 3 * (tape.size - pos) + 1

/-- What stands under a label ends behind the position at which the label began. Nothing at all may
be read there, so it is only with the label in front of it that the two readers meet. -/
theorem labeled_meets (pos : Nat) {pos' line : Nat} {label : String} {ts us : List Token}
    {s : Except ParseError (Parsed Stmt us)} (hlt : pos' < pos) (hle : pos ≤ tape.size)
    (hts : tape.after pos = ts)
    (hrefused : ∀ e, Stmt.parseLabeled types line ts = .error e → s = .error e)
    (hread : ∀ body next shorter,
      Stmt.parseLabeled types line ts = .ok (body, ⟨tape.after next, shorter⟩) →
      ∃ shorter, s = .ok ⟨.headed line (.label label) body, tape.after next, shorter⟩) :
    Meets tape pos' (tape.labeled types line label pos) s := by
  obtain rfl := hts
  rw [labeled]
  by_cases hend : headText (tape.after pos) = "\x7d"
  · have htext : tape.text pos = "\x7d" := hend
    obtain ⟨shorter, rfl⟩ := hread (.leaf line .empty) pos (Nat.le_refl _)
      (by rw [Stmt.parseLabeled, if_pos hend])
    rw [if_pos htext]
    exact .read hlt hle
  · have htext : ¬ tape.text pos = "\x7d" := hend
    rw [if_neg htext]
    refine (statement_meets pos rfl).bind
      (fun e he => hrefused e (by rw [Stmt.parseLabeled, if_neg hend, he]))
      fun body next shorter hbody hnext hbound => ?_
    obtain ⟨shorter, rfl⟩ := hread body next (Nat.le_of_lt shorter)
      (by rw [Stmt.parseLabeled, if_neg hend, hbody])
    exact .read (by omega) hbound
termination_by 3 * (tape.size - pos) + 2

/-- Every round of the loop over the statements of a block begins at a later position than the one
before, and the same statements are read as from the list of tokens. -/
theorem statements_meets (pos : Nat) {ts : List Token} (hts : tape.after pos = ts) :
    Meets tape pos (tape.statements types pos) (Stmt.parseItems types ts) := by
  rw [statements]
  match ts, hts with
  | [], hts =>
    rw [hts, Stmt.parseItems]
    exact .refused
  | t :: rest, hts =>
    have hlt := lt_size hts
    obtain rfl := after_succ hts
    rw [hts, Stmt.parseItems]
    dsimp only
    by_cases hend : t.text = "\x7d"
    · rw [if_pos hend, if_pos hend]
      exact .read (by omega) hlt
    rw [if_neg hend, if_neg hend]
    refine (statement_meets pos hts).bind (fun e he => by rw [he])
      fun first next _ hfirst hnext hbound => ?_
    rw [hfirst]
    dsimp only
    refine .onward_bind hnext hbound (statements_meets next rfl) (fun e he => by rw [he])
      fun more behind _ hmore hlt hbehind => ?_
    rw [hmore]
    exact .read (by omega) hbehind
termination_by 3 * (tape.size - pos) + 2

end

theorem block_advances (pos : Nat) : Advances tape pos (tape.block types pos) := by
  cases hts : tape.after pos with
  | nil =>
    rw [block, expect, hts]
    exact .refused
  | cons t rest =>
    by_cases ht : t.text = "\x7b"
    · rw [block_eq hts ht]
      exact (statements_meets (pos + 1) rfl).advances.bind fun _ _ hlt hnext =>
        .read (by omega) hnext
    · rw [block, expect, hts]
      dsimp only
      rw [if_neg ht]
      exact .refused

theorem function_advances {pos start opening : Nat} (hle : pos ≤ opening) :
    Advances tape pos (tape.function types start opening) := by
  rw [function]
  exact (block_advances opening).bind fun _ _ hlt hnext => .read (by omega) hnext

end Statements

/-! ### Top-level items get on -/

section Items

variable {tape} {types : List String} {pos : Nat}

/-- What a round of the loop over the top-level items comes to at a position: the text is refused,
as it is from the list of tokens, or an item is read that ends at a later position of the tape, and
the other items are the ones behind it. -/
inductive Round (tape : Tape) (types : List String) (pos : Nat) :
    Except ReadError ((Item × List String) × Nat) → Prop
  | read {item : Item} {known : List String} {next : Nat} (hlt : pos < next)
      (hle : next ≤ tape.size)
      (hitems : parseProgramItems types (tape.after pos)
        = (parseProgramItems known (tape.after next)).map (item :: ·)) :
      Round tape types pos (.ok ((item, known), next))
  | refused {e : ParseError} (hitems : parseProgramItems types (tape.after pos) = .error e) :
      Round tape types pos (.error (.text e))

/-- **One round of the loop over items**: it advances, and reads the item that the reader of tokens
reads. -/
theorem item_round (hlt : pos < tape.size) : Round tape types pos (tape.item types pos) := by
  obtain ⟨t, hts⟩ := exists_after hlt
  rw [item, hts]
  dsimp only
  by_cases hk : t.kind = .directive
  · rw [if_pos hk]
    exact .read (by omega) hlt (by rw [hts, parseProgramItems_cons_directive hk])
  rw [if_neg hk]
  cases hs : splitItem 0 "" (t :: tape.after (pos + 1)) with
  | none => exact .refused (by rw [hts, parseProgramItems_unended hk hs])
  | some cut =>
    obtain ⟨before, last, behind⟩ := cut
    have hsplit := hts.trans (splitItem_eq hs)
    have hstop := add_length_lt hsplit
    have hbefore := slice_of_after hsplit
    have hlast := after_add hsplit
    obtain rfl := after_succ hlast
    dsimp only
    by_cases hend : last.text = ";"
    · rw [if_pos hend, hbefore, slice_succ hsplit]
      exact .read (by omega) hstop (by rw [hts, parseProgramItems_cons_verbatim hk hs hend])
    · rw [if_neg hend, function, block_eq hlast (text_of_splitItem hs hend), hbefore, hts]
      have hbody : Meets tape (pos + before.length + 1)
          (tape.statements types (pos + before.length + 1))
          (Stmt.parseItems types (tape.after (pos + before.length + 1))) :=
        statements_meets (pos + before.length + 1) rfl
      have hitems : parseProgramItems types (tape.after pos) = _ :=
        hts ▸ parseProgramItems_cons_function hk hs hend
      -- both readers of the body stand in their places, so that one case split decides both
      generalize tape.statements types (pos + before.length + 1) = read at hbody
      generalize Stmt.parseItems types (tape.after (pos + before.length + 1)) = read'
        at hbody hitems
      cases hbody with
      | read hlt hle => exact .read (by omega) hle hitems
      | refused => exact .refused hitems

/-- The items lie on the tape from a position on to its end: each of them is what is read at the
position at which it starts, with the type names known there, and the next one starts where it
stops. -/
inductive Tiled (tape : Tape) : List String → Nat → List PlacedItem → Prop
  | nil {types : List String} : Tiled tape types tape.size []
  | cons {types known : List String} {placed : PlacedItem} {more : List PlacedItem}
      (hitem : tape.item types placed.start = .ok ((placed.item, known), placed.stop))
      (hlt : placed.start < placed.stop) (hmore : Tiled tape known placed.stop more) :
      Tiled tape types placed.start (placed :: more)

/-- The stretches of items that tile a tape are the tokens behind its start. -/
theorem Tiled.flatMap_slice {placed : List PlacedItem} (h : Tiled tape types pos placed) :
    pos ≤ tape.size ∧ placed.flatMap (fun p => tape.slice p.start p.stop) = tape.after pos := by
  induction h with
  | nil => exact ⟨Nat.le_refl _, (List.drop_length ..).symm⟩
  | @cons types known placed more _ hlt _ ih =>
    refine ⟨by omega, ?_⟩
    rw [List.flatMap_cons, ih.2, slice_append_after (Nat.le_of_lt hlt)]

/-- The loop over the top-level items and the reader of lists come to the same: both refuse the text
for the same reason, or both read the same items, which lie on the tape one behind the other. -/
inductive ItemsMeet (tape : Tape) (types : List String) (pos : Nat) :
    Except ReadError (List PlacedItem) → Except ParseError (List Item) → Prop
  | read {placed : List PlacedItem} (htiled : Tiled tape types pos placed) :
      ItemsMeet tape types pos (.ok placed) (.ok (placed.map PlacedItem.item))
  | refused {e : ParseError} : ItemsMeet tape types pos (.error (.text e)) (.error e)

/-- A round and the rounds behind it. -/
theorem ItemsMeet.cons {known : List String} {placed : PlacedItem}
    {r : Except ReadError (List PlacedItem)} {r' : Except ParseError (List Item)}
    (hitem : tape.item types placed.start = .ok ((placed.item, known), placed.stop))
    (hlt : placed.start < placed.stop) (h : ItemsMeet tape known placed.stop r r') :
    ItemsMeet tape types placed.start (r >>= fun more => .ok (placed :: more))
      (r'.map (placed.item :: ·)) := by
  cases h with
  | read htiled => exact .read (.cons hitem hlt htiled)
  | refused => exact .refused

/-- Every round of the loop over the top-level items begins at a later position than the one before,
and the same items are read as from the list of tokens. -/
theorem items_meet (types : List String) (pos : Nat) (hle : pos ≤ tape.size) :
    ItemsMeet tape types pos (tape.items types pos)
      (parseProgramItems types (tape.after pos)) := by
  rw [items]
  by_cases hlt : pos < tape.size
  · rw [if_pos hlt]
    have hround : Round tape types pos (tape.item types pos) := item_round hlt
    generalize hitem : tape.item types pos = read at hround
    cases hround with
    | refused hitems =>
      rw [hitems]
      exact .refused
    | @read item known next hnext hbound hitems =>
      have hmore := items_meet known next hbound
      rw [hitems, ok_bind]
      dsimp only
      rw [onward_eq hnext hbound]
      exact ItemsMeet.cons (show tape.item types (PlacedItem.mk item pos next).start = _ from hitem)
        hnext hmore
  · obtain rfl : pos = tape.size := by omega
    rw [if_neg hlt, show tape.after tape.size = [] from List.drop_length .., parseProgramItems]
    exact .read .nil
termination_by tape.size - pos

end Items

/-! ### Reading gets on -/

/-- Every reader of the tape gets on, whatever is on the tape and wherever the reader begins. -/
structure GetsOn (tape : Tape) : Prop where
  /-- An expression is read from every range of the tape, and each one inside of it from a smaller
  part of that range. -/
  expr (start stop : Nat) (hle : stop ≤ tape.size) :
    tape.expr start stop = .ok (.ofTokens (tape.slice start stop))
  statement (types : List String) (pos : Nat) :
    Meets tape pos (tape.statement types pos) (Stmt.parse types (tape.after pos))
  /-- The rounds of the loop over the statements of a block. -/
  statements (types : List String) (pos : Nat) :
    Meets tape pos (tape.statements types pos) (Stmt.parseItems types (tape.after pos))
  block (types : List String) (pos : Nat) : Advances tape pos (tape.block types pos)
  /-- A function ends behind every position up to the one at which its body begins. -/
  function (types : List String) (pos start opening : Nat) (hle : pos ≤ opening) :
    Advances tape pos (tape.function types start opening)
  /-- The rounds of the loop over the top-level items. -/
  items (types : List String) (pos : Nat) (hle : pos ≤ tape.size) :
    ItemsMeet tape types pos (tape.items types pos) (parseProgramItems types (tape.after pos))

end Tape

/-- **Reading a program always gets on.** On every tape, what is read as a statement, a block or a
function ends at a later position than it began, no round of a loop leaves the position where it
was, and an expression inside of another is read from a smaller part of its range. So reading a text
ends, in an error or in a program, and the ranges from which the items of the program were read lie
one behind the other and make up all tokens of the text. -/
theorem Program.parse_gets_on :
    (∀ tape : Tape, tape.GetsOn) ∧
      ∀ source,
        match Program.parse source with
        | .error e => tokenize source = .error e ∨
            ∃ ts, tokenize source = .ok ts ∧
              (Tape.mk ts).items standardTypes 0 = .error (.text e)
        | .ok program => ∃ ts placed, tokenize source = .ok ts ∧
            (Tape.mk ts).items standardTypes 0 = .ok placed ∧
            program.items = placed.map Tape.PlacedItem.item ∧
            (Tape.mk ts).Tiled standardTypes 0 placed ∧
            placed.flatMap (fun p => (Tape.mk ts).slice p.start p.stop) = ts := by
  refine ⟨fun tape => ⟨Tape.expr_eq_ok, fun _ pos => Tape.statement_meets pos rfl,
    fun _ pos => Tape.statements_meets pos rfl, fun _ => Tape.block_advances,
    fun _ _ _ _ => Tape.function_advances, Tape.items_meet⟩, fun source => ?_⟩
  rw [Program.parse]
  cases htokens : tokenize source with
  | error e => exact .inl rfl
  | ok ts =>
    dsimp only
    have hmeet : Tape.ItemsMeet ⟨ts⟩ standardTypes 0 ((Tape.mk ts).items standardTypes 0)
        (parseProgramItems standardTypes ts) := Tape.items_meet standardTypes 0 (Nat.zero_le _)
    generalize hitems : (Tape.mk ts).items standardTypes 0 = read at hmeet
    generalize parseProgramItems standardTypes ts = read' at hmeet
    cases hmeet with
    | refused => exact .inr ⟨ts, rfl, hitems⟩
    | @read placed htiled =>
      exact ⟨ts, placed, rfl, hitems, rfl, htiled, htiled.flatMap_slice.2⟩

end WitnessReplay
