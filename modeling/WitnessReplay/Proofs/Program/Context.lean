import WitnessReplay.Proofs.Program.Walk

/-!
# Programs with a hole

A context is a program from which one statement was taken out; any statement may be put into the
hole. That a change is made at a place and nowhere else is said by a context: the program before and
the program behind it are the same context, with another statement in the hole
(`Program.exists_context`, `Program.modifyAt_fill`). All that stands elsewhere is in the context,
and so it is the same: every other item, the header of the function, and every statement and list
that is not the one in the hole or above it.
-/

namespace WitnessReplay

namespace Stmt

/-- A statement with a hole in the place of one statement in or below it. -/
inductive Context
  | hole
  | item (line : Option Nat) (before : List Stmt) (inner : Context) (after : List Stmt)
  | body (line : Option Nat) (head : Head) (inner : Context)
  | thenBranch (line : Option Nat) (cond : Expr) (inner : Context) (elseBranch : Stmt)
  | elseBranch (line : Option Nat) (cond : Expr) (thenBranch : Stmt) (inner : Context)

namespace Context

/-- The statement with something in the hole. -/
def fill : Context → Stmt → Stmt
  | hole, s => s
  | item l before inner after, s => block l (before ++ inner.fill s :: after)
  | body l head inner, s => headed l head (inner.fill s)
  | thenBranch l cond inner no, s => ifElse l cond (inner.fill s) no
  | elseBranch l cond yes inner, s => ifElse l cond yes (inner.fill s)

/-- The way to the hole. -/
def steps : Context → List Nat
  | hole => []
  | item _ before inner _ => before.length :: inner.steps
  | body _ _ inner => 0 :: inner.steps
  | thenBranch _ _ inner _ => 0 :: inner.steps
  | elseBranch _ _ _ inner => 1 :: inner.steps

variable (c : Context) (s : Stmt)

@[simp] theorem at?_fill : (c.fill s).at? c.steps = some s := by
  induction c with
  | hole => rfl
  | item l before inner after ih => simp [fill, steps, at?, children, ih]
  | body _ _ _ ih | thenBranch _ _ _ _ ih | elseBranch _ _ _ _ ih =>
    simp [fill, steps, at?, children, ih]

@[simp] theorem modifyAt_fill (f : Stmt → Stmt) :
    (c.fill s).modifyAt c.steps f = c.fill (f s) := by
  induction c with
  | hole => rfl
  | item l before inner after ih => rw [fill, steps, modifyAt, mapChild, modify_append_cons, ih, fill]
  | body _ _ _ ih | thenBranch _ _ _ _ ih | elseBranch _ _ _ _ ih =>
    simp [fill, steps, modifyAt, mapChild, ih]

end Context

/-- A statement below another one stands in a context. -/
theorem exists_context {steps : List Nat} {s t : Stmt} (h : s.at? steps = some t) :
    ∃ c : Context, c.steps = steps ∧ s = c.fill t := by
  induction steps generalizing s with
  | nil =>
    cases h
    exact ⟨.hole, rfl, rfl⟩
  | cons i steps ih =>
    obtain ⟨child, hc, hat⟩ := Option.bind_eq_some_iff.1 h
    obtain ⟨c, rfl, rfl⟩ := ih hat
    cases s with
    | leaf => cases hc
    | block l items =>
      obtain ⟨before, after, hitems, rfl⟩ := exists_append_of_getElem? hc
      exact ⟨.item l before c after, rfl, congrArg (block l) hitems⟩
    | headed l head body =>
      -- a statement with one body has a child at `0` alone
      cases i with
      | succ i => cases hc
      | zero =>
        cases hc
        exact ⟨.body l head c, rfl, rfl⟩
    | ifElse l cond yes no =>
      rcases getElem?_pair_eq_some.1 hc with ⟨rfl, rfl⟩ | ⟨rfl, rfl⟩
      · exact ⟨.thenBranch l cond c no, rfl, rfl⟩
      · exact ⟨.elseBranch l cond yes c, rfl, rfl⟩

end Stmt

namespace Program

theorem modifyAt_append_cons (before after : List Item) (d : Function) (steps : List Nat)
    (f : Stmt → Stmt) :
    modifyAt ⟨before ++ .function d :: after⟩ ⟨before.length, steps⟩ f
      = ⟨before ++ .function { d with body := d.body.modifyAt steps f } :: after⟩ := by
  rw [modifyAt, modify_append_cons]

/-- A program with a hole in the place of one statement in the body of a function. -/
structure Context where
  before : List Item
  header : String
  name : String
  body : Stmt.Context
  line : Option Nat
  after : List Item

namespace Context

/-- The program with a statement in the hole. -/
def fill (c : Context) (s : Stmt) : Program :=
  ⟨c.before ++ .function ⟨c.header, c.name, c.body.fill s, c.line⟩ :: c.after⟩

/-- The place of the hole. -/
def place (c : Context) : Place :=
  ⟨c.before.length, c.body.steps⟩

@[simp] theorem stmtAt?_fill (c : Context) (s : Stmt) : (c.fill s).stmtAt? c.place = some s := by
  refine stmtAt?_eq_some.2 ⟨⟨c.header, c.name, c.body.fill s, c.line⟩, ?_, c.body.at?_fill s⟩
  simp [fill, place]

@[simp] theorem modifyAt_fill (c : Context) (s : Stmt) (f : Stmt → Stmt) :
    (c.fill s).modifyAt c.place f = c.fill (f s) := by
  rw [fill, place, modifyAt_append_cons, Stmt.Context.modifyAt_fill, fill]

end Context

/-- A statement of a program stands in a context. -/
theorem exists_context {p : Program} {place : Place} {t : Stmt} (h : p.stmtAt? place = some t) :
    ∃ c : Context, c.place = place ∧ p = c.fill t := by
  obtain ⟨d, hd, hat⟩ := stmtAt?_eq_some.1 h
  obtain ⟨before, after, hitems, hlength⟩ := exists_append_of_getElem? hd
  obtain ⟨c, hsteps, hbody⟩ := Stmt.exists_context hat
  obtain ⟨items⟩ := p
  obtain ⟨header, name, body, line⟩ := d
  obtain ⟨item, steps⟩ := place
  obtain rfl : items = before ++ .function ⟨header, name, body, line⟩ :: after := hitems
  obtain rfl : body = c.fill t := hbody
  cases hlength
  cases hsteps
  exact ⟨⟨before, header, name, c, line, after⟩, rfl, rfl⟩

end Program

end WitnessReplay
