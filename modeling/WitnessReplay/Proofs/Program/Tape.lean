import WitnessReplay.Proofs.Program.Expression
import WitnessReplay.Proofs.Program.Items

/-!
# Reading by position

`Program.parse` takes lists of tokens apart and hands on what is left of them, with a proof that it
is less. Here the tokens lie on a tape, and a program is read by position: a reader begins at a
position, looks at the tape wherever it has to, and names the position at which it ended. Nothing in
that form keeps a reader from ending where it began or beyond the tape, nor an expression from being
read from the range that it was to be read from.

So wherever a reader goes on with what may lead it in circles, it is asked whether it gets on: a
call inside of a statement and a round of a loop have to begin at a later position of the tape
(`onward`), and an expression inside of another has to be read from a smaller part of its range
(`inward`). A reader that does not get on is `stuck`. That this never happens, and that the same is
read as from lists, is shown in `WitnessReplay.Proofs.Program.Progress`.
-/

namespace WitnessReplay

open Token

/-- Tokens that are read by position. -/
structure Tape where
  tokens : List Token

/-- Why reading by position stops. -/
inductive ReadError
  /-- The text is at fault. -/
  | text (e : ParseError)
  /-- What was begun at this position goes on without getting on. -/
  | stuck (pos : Nat)
deriving DecidableEq, Repr

namespace Tape

variable (tape : Tape)

/-- How many tokens there are. -/
def size : Nat :=
  tape.tokens.length

/-- The tokens from a position on. -/
def after (pos : Nat) : List Token :=
  tape.tokens.drop pos

/-- The tokens between two positions. -/
def slice (start stop : Nat) : List Token :=
  (tape.after start).take (stop - start)

/-- The text of the token at a position, or nothing if there is none. -/
def text (pos : Nat) : String :=
  headText (tape.after pos)

/-! ### Getting on -/

/-- Goes on at a position, which has to be a later one and not beyond the tape. -/
def onward {α : Type} (pos next : Nat) (go : pos < next → next ≤ tape.size → Except ReadError α) :
    Except ReadError α :=
  if h : pos < next ∧ next ≤ tape.size then go h.1 h.2 else .error (.stuck pos)

/-- Goes on with the range from `first` to `last`, which has to be a smaller part of the one from
`start` to `stop`. -/
def inward {α : Type} (start stop first last : Nat)
    (go : last - first < stop - start → Except ReadError α) : Except ReadError α :=
  if h : start ≤ first ∧ first ≤ last ∧ last ≤ stop ∧ last - first < stop - start then go h.2.2.2
  else .error (.stuck start)

/-! ### Looking ahead -/

/-- The first position between two at which a token outside all brackets passes a test. -/
def outside? (test : String → Bool) (start stop : Nat) : Option Nat :=
  (splitOutside test 0 (tape.slice start stop)).map fun (before, _, _) => start + before.length

/-- Requires a token at a position and gives the position behind it. -/
def expect (text : String) (context : Construct) (pos : Nat) : Except ReadError Nat :=
  match tape.after pos with
  | [] => .error (.text (.endOfInput context))
  | t :: _ =>
    if t.text = text then .ok (pos + 1) else .error (.text (.unexpected text t.text t.line))

/-- The position of the bracket that closes the parenthesis at a position. -/
def closing (context : Construct) (pos : Nat) : Except ReadError Nat := do
  let inside ← tape.expect "(" context pos
  match splitClosing 0 (tape.after inside) with
  | some (ts, _) => return inside + ts.length
  | none => .error (.text (.endOfInput .brackets))

/-- The position of the semicolon that ends a statement. -/
def statementEnd (pos : Nat) : Except ReadError Nat :=
  match splitStatement 0 (tape.after pos) with
  | .error e => .error (.text e)
  | .ok p => .ok (pos + p.value.length)

/-- The position behind the colon that ends a `case` label. -/
def labelEnd (pos : Nat) : Except ReadError Nat :=
  match splitLabel 0 (tape.after pos) with
  | .error e => .error (.text e)
  | .ok p => .ok (pos + p.value.length)

/-! ### Expressions -/

mutual

/-- The expression between two positions. -/
def expr (start stop : Nat) : Except ReadError Expr :=
  match tape.slice start stop with
  | [] => .ok (.raw "")
  | [t] => .ok (.ofToken t)
  | ts =>
    match (tape.outside? assignmentOps.contains start stop).filter (start < ·) with
    | some op => do
      let target ← inward start stop start op fun _ => expr start op
      let value ← inward start stop (op + 1) stop fun _ => expr (op + 1) stop
      return .assign target (tape.text op) value
    | none =>
      if (tape.outside? (· == ",") start stop).isSome then .ok (.raw (verbatim ts))
      else
        match callArguments? ts with
        | some (callee, _) =>
          if stop - 1 ≤ start + 2 then .ok (.call callee [])
          else return .call callee (← arguments start stop (start + 2) (stop - 1))
        | none => .ok (.raw (verbatim ts))
termination_by (stop - start, 2, 0)

/-- The arguments between two positions of a call that stands between `start` and `stop`. -/
def arguments (start stop first last : Nat) : Except ReadError (List Expr) :=
  match tape.outside? (· == ",") first last with
  | some comma => do
    let argument ← inward start stop first comma fun _ => expr first comma
    let more ← inward first last (comma + 1) last fun _ =>
      arguments start stop (comma + 1) last
    return argument :: more
  | none => return [← inward start stop first last fun _ => expr first last]
termination_by (stop - start, 1, last - first)

end

/-! ### Statements -/

/-- The declaration between two positions. -/
def declaration (start stop : Nat) : Except ReadError Declaration :=
  match tape.outside? (· == "=") start stop with
  | some sign =>
    if (tape.outside? (· == ",") (sign + 1) stop).isNone then
      return ⟨verbatim (tape.slice start sign), declaredName? (tape.slice start sign),
        ← tape.expr (sign + 1) stop⟩
    else .ok ⟨verbatim (tape.slice start stop), none, none⟩
  | none => .ok ⟨verbatim (tape.slice start stop), none, none⟩

/-- What is declared or evaluated between two positions. -/
def leaf (types : List String) (start stop : Nat) : Except ReadError Leaf :=
  if isDeclaration types (tape.slice start stop) then
    return .declares (← tape.declaration start stop)
  else return .evaluates (← tape.expr start stop)

mutual

/-- The statement at a position, and the position behind it. -/
def statement (types : List String) (pos : Nat) : Except ReadError (Stmt × Nat) :=
  match tape.after pos with
  | [] => .error (.text (.endOfInput .statement))
  | t :: _ =>
    if t.kind = .directive then .ok (.leaf t.line (.directive t.text), pos + 1)
    else if t.text = "\x7b" then block types pos
    else if t.text = ";" then .ok (.leaf t.line .empty, pos + 1)
    else if t.text = "if" then do
      let close ← tape.closing .condition (pos + 1)
      let cond ← tape.expr (pos + 2) close
      let (yes, next) ← tape.onward pos (close + 1) fun _ _ => statement types (close + 1)
      if tape.text next = "else" then
        let (no, behind) ← tape.onward pos (next + 1) fun _ _ => statement types (next + 1)
        return (.ifElse t.line cond yes no, behind)
      else return (.headed t.line (.ifThen cond) yes, next)
    else if t.text = "do" then do
      let (body, next) ← tape.onward pos (pos + 1) fun _ _ => statement types (pos + 1)
      let opening ← tape.expect "while" .doWhile next
      let close ← tape.closing .condition opening
      let cond ← tape.expr (opening + 1) close
      let behind ← tape.expect ";" .doWhile (close + 1)
      return (.headed t.line (.doWhile cond) body, behind)
    else if t.text = "for" then do
      let close ← tape.closing .forHeader (pos + 1)
      let (body, next) ← tape.onward pos (close + 1) fun _ _ => statement types (close + 1)
      return (.headed t.line (.forLoop (verbatim (tape.slice (pos + 2) close))) body, next)
    else if t.text = "case" then do
      let behind ← tape.labelEnd (pos + 1)
      tape.onward pos behind fun _ _ =>
        labeled types t.line (verbatim (tape.slice pos behind)) behind
    else if t.text = "return" then do
      let semicolon ← tape.statementEnd (pos + 1)
      if semicolon ≤ pos + 1 then return (.leaf t.line (.returns none), semicolon + 1)
      else return (.leaf t.line (.returns (← tape.expr (pos + 1) semicolon)), semicolon + 1)
    else if t.text = "break" ∨ t.text = "continue" ∨ t.text = "goto" then do
      let semicolon ← tape.statementEnd (pos + 1)
      return (.leaf t.line (.jump (verbatim (tape.slice pos semicolon))), semicolon + 1)
    else
      match conditionalHead? t.text with
      | some head => do
        let close ← tape.closing .condition (pos + 1)
        let cond ← tape.expr (pos + 2) close
        let (body, next) ← tape.onward pos (close + 1) fun _ _ => statement types (close + 1)
        return (.headed t.line (head cond) body, next)
      | none =>
        if t.kind = .word ∧ tape.text (pos + 1) = ":" then
          tape.onward pos (pos + 2) fun _ _ =>
            labeled types t.line (verbatim (tape.slice pos (pos + 2))) (pos + 2)
        else do
          let semicolon ← tape.statementEnd pos
          let content ← tape.leaf types pos semicolon
          return (.leaf t.line content, semicolon + 1)
termination_by 3 * (tape.size - pos) + 1

/-- What stands under a label on a line, from a position behind the label on. A label that closes
its block stands over an empty statement, for which the position does not move. -/
def labeled (types : List String) (line : Nat) (label : String) (pos : Nat) :
    Except ReadError (Stmt × Nat) :=
  if tape.text pos = "\x7d" then .ok (.headed line (.label label) (.leaf line .empty), pos)
  else do
    let (body, next) ← statement types pos
    return (.headed line (.label label) body, next)
termination_by 3 * (tape.size - pos) + 2

/-- The block at a position, and the position behind it. -/
def block (types : List String) (pos : Nat) : Except ReadError (Stmt × Nat) := do
  let inside ← tape.expect "\x7b" .block pos
  let (items, next) ← tape.onward pos inside fun _ _ => statements types inside
  return (.block (firstLine (tape.after pos)) items, next)
termination_by 3 * (tape.size - pos)

/-- The statements of a block from a position on, and the position behind its closing brace. -/
def statements (types : List String) (pos : Nat) : Except ReadError (List Stmt × Nat) :=
  match tape.after pos with
  | [] => .error (.text (.endOfInput .block))
  | t :: _ =>
    if t.text = "\x7d" then .ok ([], pos + 1)
    else do
      let (first, next) ← statement types pos
      let (more, behind) ← tape.onward pos next fun _ _ => statements types next
      return (first :: more, behind)
termination_by 3 * (tape.size - pos) + 2

end

/-! ### Top-level items -/

/-- The function whose header begins at `start` and whose body begins at `opening`, and the position
behind it. -/
def function (types : List String) (start opening : Nat) : Except ReadError (Function × Nat) := do
  let (body, next) ← tape.block types opening
  return (⟨verbatim (tape.slice start opening), functionName (tape.slice start opening), body,
    firstLine (tape.after start)⟩, next)

/-- The top-level item at a position with the type names known behind it, and the position behind
it. -/
def item (types : List String) (pos : Nat) : Except ReadError ((Item × List String) × Nat) :=
  match tape.after pos with
  | [] => .error (.text (.endOfInput .topLevel))
  | t :: rest =>
    if t.kind = .directive then .ok ((.verbatim t.text t.line, types), pos + 1)
    else
      match splitItem 0 "" (t :: rest) with
      | none => .error (.text (.endOfInput .topLevel))
      | some (before, last, _) =>
        let stop := pos + before.length
        if last.text = ";" then
          .ok ((.verbatim (verbatim (tape.slice pos (stop + 1))) t.line,
            (typedefName? (tape.slice pos stop)).toList ++ types), stop + 1)
        else do
          let (f, next) ← tape.function types pos stop
          return ((.function f, types), next)

/-- A top-level item and the range of positions that it was read from. -/
structure PlacedItem where
  item : Item
  start : Nat
  stop : Nat

/-- The top-level items from a position on. -/
def items (types : List String) (pos : Nat) : Except ReadError (List PlacedItem) :=
  if pos < tape.size then do
    let ((item, known), next) ← tape.item types pos
    let more ← tape.onward pos next fun _ _ => items known next
    return ⟨item, pos, next⟩ :: more
  else .ok []
termination_by tape.size - pos

/-! ### Positions and ranges -/

section Ranges

variable {tape} {pos start stop first last : Nat} {t : Token} {before behind rest us : List Token}

/-- Behind a position are all tokens but those before it. -/
theorem length_after : (tape.after pos).length = tape.size - pos :=
  List.length_drop

/-- Some tokens are passed by adding their number. -/
theorem after_add (h : tape.after pos = us ++ rest) : tape.after (pos + us.length) = rest := by
  have hdrop := congrArg (List.drop us.length) h
  rw [List.drop_left] at hdrop
  rw [← hdrop]
  unfold after
  rw [List.drop_drop]

/-- One position further, one token less is behind. -/
theorem after_succ (h : tape.after pos = t :: rest) : tape.after (pos + 1) = rest :=
  after_add (show tape.after pos = [t] ++ rest from h)

theorem tail_after : (tape.after pos).tail = tape.after (pos + 1) :=
  List.tail_drop

/-- A token that is behind others is on the tape. -/
theorem add_length_lt (h : tape.after pos = us ++ t :: rest) : pos + us.length < tape.size := by
  have hlength := congrArg List.length h
  rw [length_after, List.length_append, List.length_cons] at hlength
  omega

theorem lt_size (h : tape.after pos = t :: rest) : pos < tape.size :=
  add_length_lt (show tape.after pos = [] ++ t :: rest from h)

/-- A position on the tape has a token. -/
theorem exists_after (hlt : pos < tape.size) : ∃ t, tape.after pos = t :: tape.after (pos + 1) :=
  ⟨_, List.drop_eq_getElem_cons hlt⟩

/-- The tokens in front of the rest are a slice. -/
theorem slice_of_after (h : tape.after pos = us ++ rest) :
    tape.slice pos (pos + us.length) = us := by
  unfold slice
  rw [h, Nat.add_sub_cancel_left, List.take_left]

/-- A token behind a range makes the range longer. -/
theorem slice_succ (h : tape.after pos = us ++ t :: rest) :
    tape.slice pos (pos + us.length + 1) = us ++ [t] := by
  have happend : tape.after pos = (us ++ [t]) ++ rest := by simp [h]
  simpa [Nat.add_assoc] using slice_of_after happend

/-- A slice and what is behind it are what is behind its start. -/
theorem slice_append_after (hle : start ≤ stop) :
    tape.slice start stop ++ tape.after stop = tape.after start := by
  have hstop : tape.after stop = (tape.after start).drop (stop - start) := by
    unfold after
    rw [List.drop_drop, Nat.add_sub_cancel' hle]
  rw [hstop, slice, List.take_append_drop]

theorem slice_cons (h : tape.after pos = t :: rest) (hlt : pos < stop) :
    tape.slice pos stop = t :: tape.slice (pos + 1) stop := by
  have hcount : stop - pos = stop - (pos + 1) + 1 := by omega
  unfold slice
  rw [hcount, after_succ h, h, List.take_succ_cons]

/-- A position with a text is one of the tape. -/
theorem lt_size_of_text {text : String} (h : tape.text pos = text) (hne : text ≠ "") :
    pos < tape.size := by
  obtain ⟨t, -, hts⟩ := exists_cons_of_headText h hne
  exact lt_size hts

/-- A token parts a range in what is before it and what is behind it. -/
theorem slice_split (h : tape.slice start stop = before ++ t :: behind) :
    start + before.length < stop ∧ tape.slice start (start + before.length) = before ∧
      tape.text (start + before.length) = t.text ∧
      tape.slice (start + before.length + 1) stop = behind := by
  -- what is behind the range does not matter for the parts of it
  have hafter : tape.after start
      = before ++ t :: (behind ++ (tape.after start).drop (stop - start)) := by
    have happend := List.take_append_drop (stop - start) (tape.after start)
    rw [show (tape.after start).take (stop - start) = before ++ t :: behind from h] at happend
    exact happend.symm.trans (by simp)
  have hlength := congrArg List.length h
  unfold slice at hlength
  rw [List.length_take, List.length_append, List.length_cons] at hlength
  have hat := after_add hafter
  refine ⟨by omega, slice_of_after hafter, ?_, ?_⟩
  · unfold text
    rw [hat]
    rfl
  · have hdrop := congrArg (List.drop (before.length + 1)) h
    have hbehind : (before ++ t :: behind).drop (before.length + 1) = behind := by
      simp [← List.drop_drop]
    rw [hbehind, slice, List.drop_take] at hdrop
    rw [← hdrop]
    unfold slice after
    rw [List.drop_drop, Nat.add_assoc, Nat.sub_add_eq]

/-- A slice is as long as its ends are apart. -/
theorem length_slice (hle : stop ≤ tape.size) : (tape.slice start stop).length = stop - start := by
  unfold slice
  rw [List.length_take, length_after]
  omega

theorem isEmpty_slice (hle : stop ≤ tape.size) :
    (tape.slice start stop).isEmpty = decide (stop ≤ start) := by
  have hlength : (tape.slice start stop).length = stop - start := length_slice hle
  cases h : tape.slice start stop with
  | nil =>
    rw [h, List.length_nil] at hlength
    exact (decide_eq_true (by omega)).symm
  | cons t ts =>
    rw [h, List.length_cons] at hlength
    exact (decide_eq_false (by omega)).symm

/-- The arguments of a call are between its third and its last token. -/
theorem slice_call {callee : String} {inside : List Token} (hle : stop ≤ tape.size)
    (h : callArguments? (tape.slice start stop) = some (callee, inside)) :
    stop = start + inside.length + 3 ∧ tape.slice (start + 2) (stop - 1) = inside := by
  obtain ⟨name, opening, closing, hslice, -⟩ := callArguments?_eq_some.1 h
  have hlength := congrArg List.length hslice
  rw [length_slice hle] at hlength
  simp only [List.length_append, List.length_cons, List.length_nil] at hlength
  obtain ⟨-, hbefore, -⟩ := slice_split hslice
  obtain ⟨-, -, -, hinside⟩ :=
    slice_split (show tape.slice start _ = [name] ++ opening :: inside from hbefore)
  have hlast : start + (name :: opening :: inside).length = stop - 1 := by
    simp only [List.length_cons]
    omega
  rw [hlast] at hinside
  exact ⟨by omega, hinside⟩

/-- What is found outside of brackets in a slice is found at its position on the tape. -/
theorem outside?_eq_some {test : String → Bool} {op : Token}
    (h : splitOutside test 0 (tape.slice start stop) = some (before, op, behind)) :
    tape.outside? test start stop = some (start + before.length) := by
  unfold outside?
  rw [h]
  rfl

/-- What is not found in the slice is not found on the tape. -/
theorem outside?_eq_none {test : String → Bool}
    (h : splitOutside test 0 (tape.slice start stop) = none) :
    tape.outside? test start stop = none := by
  unfold outside?
  rw [h]
  rfl

theorem onward_eq {α : Type} {next : Nat} (hlt : pos < next) (hle : next ≤ tape.size)
    (go : pos < next → next ≤ tape.size → Except ReadError α) :
    tape.onward pos next go = go hlt hle :=
  dif_pos ⟨hlt, hle⟩

/-- A step to a smaller range is taken. -/
theorem inward_eq {α : Type} (hstart : start ≤ first) (hrange : first ≤ last) (hstop : last ≤ stop)
    (hless : last - first < stop - start) (go : last - first < stop - start → Except ReadError α) :
    inward start stop first last go = go hless :=
  dif_pos ⟨hstart, hrange, hstop, hless⟩

end Ranges

end Tape

end WitnessReplay
