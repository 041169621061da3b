import WitnessReplay.Proofs.Program.Slot
import WitnessReplay.Proofs.Replay.Placement

/-!
# What stands in the way of a change

A barrier is placed, and a value pinned, at the place that a search gives. Between the search and
the change much could go wrong: the place might lead nowhere, the statement there might not be in
the list of a block, an index might be outside of the list, the statement might have no call to
replace, or the call no type. `Program.barIn` and `Program.pinIn` make the changes through slots,
one check after the other, and each check that fails has its `Obstacle`.

Two of the obstacles are met before there is a place: the assumption says nothing, or the search
finds nothing. Behind a search that succeeds the only one left is an assumption that says nothing of
the variable, and where nothing is in the way the result is that of `Program.insertBarrier?` and
`Program.pin?` (`searchReaches`).
-/

namespace WitnessReplay

/-- Why a change of a program is not made. -/
inductive Obstacle
  /-- The assumption has no constraint at all. -/
  | silent
  /-- The search finds no statement. -/
  | notFound
  /-- Nothing that can be changed is at the place that was found. -/
  | notReached
  /-- An index is outside of the list. -/
  | outOfRange
  /-- The statement takes no nondeterministic value. -/
  | noCall
  /-- The assumption has no constraint on the variable of the statement. -/
  | unconstrained
  /-- The function that is called gives no nondeterministic value. -/
  | untyped
deriving DecidableEq, Repr

namespace Obstacle

/-- What is there, or the obstacle if there is nothing. -/
def check {α : Type} (obstacle : Obstacle) : Option α → Except Obstacle α
  | some a => .ok a
  | none => .error obstacle

/-- A list with a new entry at an index. The index just behind the list is the last that will do. -/
def insertAt {α : Type} (i : Nat) (a : α) (l : List α) : Except Obstacle (List α) :=
  if i ≤ l.length then .ok (l.insertIdx i a) else .error .outOfRange

theorem insertAt_length {α : Type} (before : List α) (a : α) (after : List α) :
    insertAt before.length a (before ++ after) = .ok (before ++ a :: after) := by
  have hinsert : (before ++ after).insertIdx before.length a = before ++ a :: after := by
    induction before with
    | nil => rfl
    | cons b before ih =>
      rw [List.cons_append, List.length_cons, List.insertIdx_succ_cons, ih]
      rfl
  unfold insertAt
  rw [if_pos (by rw [List.length_append]; omega), hinsert]

end Obstacle

/-! ### Slots of calls -/

namespace Stmt

/-- The variable that a statement assigns a nondeterministic value to, and the slot of the call. -/
def callSlot? : Stmt → Option (String × Slot Expr Stmt)
  | leaf l (.evaluates (.assign target op value)) =>
    if op = "=" then
      target.ident?.bind fun name =>
        if value.isNondet then
          some (name, ⟨value, fun e => leaf l (.evaluates (.assign target op e))⟩)
        else none
    else none
  | leaf l (.declares d) =>
    d.name.bind fun name =>
      d.init.bind fun init =>
        if init.isNondet then
          some (name, ⟨init, fun e => leaf l (.declares { d with init := some e })⟩)
        else none
  | _ => none

/-- A statement has a call to replace exactly if it assigns a nondeterministic value. -/
theorem isSome_callSlot? (s : Stmt) : s.callSlot?.isSome = s.isNondetAssignment := by
  match s with
  | leaf _ (.evaluates (.assign target op value)) =>
    by_cases hop : op = "="
    · cases target <;> cases hvalue : value.isNondet <;>
        simp [callSlot?, isNondetAssignment, Expr.ident?, hop, hvalue]
    · simp [callSlot?, isNondetAssignment, hop]
  | leaf _ (.declares ⟨_, name, init⟩) =>
    cases name with
    | none => simp [callSlot?, isNondetAssignment]
    | some name =>
      cases init with
      | none => simp [callSlot?, isNondetAssignment]
      | some init => cases hinit : init.isNondet <;> simp [callSlot?, isNondetAssignment, hinit]
  | leaf _ (.evaluates (.call ..)) | leaf _ (.evaluates (.ident _))
  | leaf _ (.evaluates (.constant ..)) | leaf _ (.evaluates (.raw _)) | leaf _ (.returns _)
  | leaf _ (.jump _) | leaf _ (.directive _) | leaf _ .empty => rfl
  | block .. | headed .. | ifElse .. => rfl

/-- The call of a statement has the type of the value, and what is put into its place is put into
the place of the value. -/
theorem Takes.callSlot? {s : Stmt} {name type : String} (h : s.Takes name type) :
    ∃ call, s.callSlot? = some (name, call) ∧ call.part.nondetType? = some type ∧
      call.put = fun e => s.withValue e := by
  have hnondet {callee : String} {args : List Expr} (hc : nondetType? callee = some type) :
      (Expr.call callee args).isNondet = true := by
    show (nondetType? callee).isSome = true
    rw [hc]
    rfl
  cases h with
  | @assigned l callee args hc =>
    refine ⟨⟨.call callee args, fun e => leaf l (.evaluates (.assign (.ident name) "=" e))⟩,
      ?_, hc, rfl⟩
    unfold Stmt.callSlot?
    dsimp only
    rw [if_pos rfl]
    exact if_pos (hnondet hc)
  | @declared l text callee args hc =>
    refine ⟨⟨.call callee args, fun e => leaf l (.declares ⟨text, some name, some e⟩)⟩, ?_, hc, rfl⟩
    exact if_pos (hnondet hc)

/-- How the parts of a statement can be reached to be changed: each child under its number, and the
call of a statement that the search for such a call accepts. -/
structure Reachable (s : Stmt) : Prop where
  isSome_child : ∀ i, (s.childSlot? i).isSome ↔ i < s.children.length
  child : ∀ i slot, s.childSlot? i = some slot →
    s.children[i]? = some slot.part ∧ ∀ c, (slot.put c).children = s.children.set i c
  call : s.callSlot?.isSome = s.isNondetAssignment

theorem reachable (s : Stmt) : s.Reachable where
  isSome_child _ := isSome_childSlot?
  child _ _ := children_of_childSlot?
  call := s.isSome_callSlot?

end Stmt

/-! ### Changes in place -/

namespace Program

/-- Places a barrier in place. -/
def barIn (p : Program) (b : Barrier) : Except Obstacle Program := do
  let place ← Obstacle.notFound.check (p.statementFrom? b.line)
  let (slot, i) ← Obstacle.notReached.check (p.listSlot? place)
  let waiting ← Obstacle.insertAt i b.waits slot.part
  let target ← Obstacle.outOfRange.check waiting[i + 1]?
  match Stmt.enterWith? b.frees target with
  | some entered => .ok (slot.put (waiting.set (i + 1) entered))
  | none => do
    let released ← Obstacle.insertAt (i + 2) b.frees waiting
    .ok (slot.put released)

/-- Pins a value in place. -/
def pinIn (p : Program) (assumption : String) (line : Nat) :
    Except Obstacle (Program × Pinned) := do
  let constraints := Assumption.parse assumption
  if constraints.isEmpty then .error .silent
  else
    let place ← Obstacle.notFound.check (p.nondetFrom? line)
    let slot ← Obstacle.notReached.check (p.slotAt? place)
    let (name, call) ← Obstacle.noCall.check slot.part.callSlot?
    let constraint ← Obstacle.unconstrained.check (constraints.find? (·.name == name))
    let type ← Obstacle.untyped.check call.part.nondetType?
    .ok (slot.put (call.put (.constant type constraint.value)),
      ⟨name, constraint.value, type, slot.part.line⟩)

variable {p : Program} {place : Place} {line : Nat}

/-- The search for a statement of a block reaches it, in the list of its block. -/
theorem reached_of_statementFrom? (h : p.statementFrom? line = some place) :
    ∃ (c : Context) (l : Option Nat) (before after : List Stmt) (t : Stmt),
      place = ⟨c.place.item, c.place.steps ++ [before.length]⟩ ∧
      p = c.fill (.block l (before ++ t :: after)) ∧
      p.FirstPassed (fun inBlock s => inBlock && s.startsFrom line) place
        (.block l (before ++ t :: after)) t := by
  obtain ⟨parent, t, hfirst⟩ := firstPassed_of_find? h
  obtain ⟨init, i, hsteps, hparent, hchild⟩ := hfirst.child
  obtain ⟨l, items, rfl⟩ := Stmt.isBlock_iff.1 (Bool.and_eq_true_iff.1 hfirst.passes).1
  obtain ⟨c, hplace, hp⟩ := exists_context hparent
  obtain ⟨before, after, hitems, rfl⟩ := exists_append_of_getElem? hchild
  obtain rfl : items = before ++ t :: after := hitems
  refine ⟨c, l, before, after, t, ?_, hp, hfirst⟩
  rw [hplace, ← hsteps]

/-- **Once a statement is found, nothing is in the way of a barrier at it.** -/
theorem barIn_eq {b : Barrier} (h : p.statementFrom? b.line = some place) :
    ∃ q, p.barIn b = .ok q ∧ p.insertBarrier? b = some q := by
  obtain ⟨c, l, before, after, t, hplace, hp, -⟩ := reached_of_statementFrom? h
  refine ⟨p.spliceAt place (Stmt.guarded b.seq b.threadId), ?_, by rw [insertBarrier?_eq_map, h]; rfl⟩
  have hlist : p.listSlot? place
      = some (⟨before ++ t :: after, fun items => c.fill (.block l items)⟩, before.length) :=
    listSlot?_eq_some_iff.2 ⟨c, l, hplace, hp, rfl⟩
  have hchild : (before ++ t :: after)[before.length]? = some t := by simp
  have hsplice : p.spliceAt place (Stmt.guarded b.seq b.threadId)
      = c.fill (.block l (before ++ Stmt.guarded b.seq b.threadId t ++ after)) := by
    rw [hplace, hp, spliceAt_fill hchild]
    simp
  have htarget : (before ++ b.waits :: t :: after)[before.length + 1]? = some t := by simp
  unfold barIn
  simp only [h, hlist, Obstacle.check, Obstacle.insertAt_length, htarget, bind, Except.bind]
  rw [hsplice, Stmt.guarded]
  show (match Stmt.enterWith? b.frees t with | some entered => _ | none => _) = Except.ok
    (c.fill (.block l (before ++ (match Stmt.enterWith? b.frees t with
      | some entered => [b.waits, entered]
      | none => [b.waits, t, b.frees]) ++ after)))
  cases Stmt.enterWith? b.frees t with
  | some entered => simp
  | none =>
    -- the marker behind the statement stands two entries further on
    have hinsert := Obstacle.insertAt_length (before ++ [b.waits, t]) b.frees after
    rw [List.length_append, List.append_assoc, List.append_assoc] at hinsert
    dsimp only
    rw [show before ++ b.waits :: t :: after = before ++ ([b.waits, t] ++ after) from rfl]
    rw [show before.length + 2 = before.length + [b.waits, t].length from rfl, hinsert]
    simp

/-- The search for a nondeterministic value reaches a statement that takes one. -/
theorem reached_of_nondetFrom? (h : p.nondetFrom? line = some place) :
    ∃ (c : Context) (parent t : Stmt), c.place = place ∧ p = c.fill t ∧
      p.FirstPassed (fun _ s => s.startsFrom line && s.isNondetAssignment) place parent t ∧
      ∃ name type, t.Takes name type := by
  obtain ⟨parent, t, hfirst⟩ := firstPassed_of_find? h
  obtain ⟨c, hplace, hp⟩ := exists_context hfirst.stmtAt?
  exact ⟨c, parent, t, hplace, hp, hfirst,
    Stmt.isNondetAssignment_iff.1 (Bool.and_eq_true_iff.1 hfirst.passes).2⟩

/-- **Once a statement that takes a value is found, only an assumption that says nothing of its
variable is in the way of a pin.** -/
theorem pinIn_eq {assumption : String} (h : p.nondetFrom? line = some place)
    (hspeaks : Assumption.parse assumption ≠ []) :
    (∃ r, p.pinIn assumption line = .ok r ∧ p.pin? assumption line = some r) ∨
      p.pinIn assumption line = .error .unconstrained ∧ p.pin? assumption line = none ∧
        ∃ t name type, p.stmtAt? place = some t ∧ t.Takes name type ∧
          ∀ constraint ∈ Assumption.parse assumption, constraint.name ≠ name := by
  obtain ⟨c, parent, t, hplace, hp, hfirst, name, type, htakes⟩ := reached_of_nondetFrom? h
  obtain ⟨call, hcall, htype, hput⟩ := htakes.callSlot?
  have hstmt := hfirst.stmtAt?
  have hslot : p.slotAt? place = some ⟨t, c.fill⟩ := slotAt?_eq_some_iff.2 ⟨c, hplace, hp, rfl⟩
  have hmodify (e : Expr) : p.modifyAt place (Stmt.withValue e) = c.fill (t.withValue e) := by
    rw [← hplace, hp, Context.modifyAt_fill]
  have hnotSilent : (Assumption.parse assumption).isEmpty = false :=
    List.isEmpty_eq_false_iff.2 hspeaks
  unfold pinIn pin?
  -- both ways to pin come down to the search for a constraint
  simp only [h, hstmt, hslot, hcall, htype, Stmt.nondetSlot?_eq_some.2 htakes, hnotSilent,
    Obstacle.check, bind, Except.bind, Option.bind, Bool.false_eq_true, if_false]
  cases hfind : (Assumption.parse assumption).find? (·.name == name) with
  | some constraint =>
    refine .inl ⟨_, rfl, ?_⟩
    show some (p.modifyAt place (Stmt.withValue (.constant type constraint.value)), _) = _
    rw [hput, hmodify]
  | none =>
    refine .inr ⟨rfl, rfl, t, name, type, rfl, htakes, ?_⟩
    intro constraint hconstraint
    simpa using List.find?_eq_none.1 hfind constraint hconstraint

/-- What the two searches of a replay find from a line on can be changed where it was found, and
what was found is what the search tested. -/
structure SearchReaches (p : Program) (line : Nat) : Prop where
  /-- The statement found stands in the list that is reached, at the index that is given. -/
  statement : ∀ place, p.statementFrom? line = some place →
    ∃ (c c' : Context) (l : Option Nat) (items : List Stmt) (i : Nat) (t : Stmt),
      p.FirstPassed (fun inBlock s => inBlock && s.startsFrom line) place (.block l items) t ∧
      p = c.fill t ∧ c.place = place ∧ p.slotAt? place = some ⟨t, c.fill⟩ ∧
      p = c'.fill (.block l items) ∧ items[i]? = some t ∧
      p.listSlot? place = some (⟨items, fun items' => c'.fill (.block l items')⟩, i)
  /-- The statement found is the one that is reached. -/
  value : ∀ place, p.nondetFrom? line = some place →
    ∃ (c : Context) (parent t : Stmt),
      p.FirstPassed (fun _ s => s.startsFrom line && s.isNondetAssignment) place parent t ∧
      p = c.fill t ∧ c.place = place ∧ p.slotAt? place = some ⟨t, c.fill⟩
  /-- Nothing is in the way of a barrier at the statement found. -/
  barrier : ∀ place seq thread, p.statementFrom? line = some place →
    ∃ q, p.barIn ⟨seq, thread, line⟩ = .ok q ∧ p.insertBarrier? ⟨seq, thread, line⟩ = some q
  /-- The value of the statement found is pinned, unless its variable is not constrained. -/
  pin : ∀ place assumption, p.nondetFrom? line = some place → Assumption.parse assumption ≠ [] →
    (∃ r, p.pinIn assumption line = .ok r ∧ p.pin? assumption line = some r) ∨
      p.pinIn assumption line = .error .unconstrained ∧ p.pin? assumption line = none ∧
        ∃ t name type, p.stmtAt? place = some t ∧ t.Takes name type ∧
          ∀ constraint ∈ Assumption.parse assumption, constraint.name ≠ name

/-- **Searching, addressing and changing agree**, in every program, whether or not it was read: the
parts of each statement are reached under their numbers, and what a search finds is what is changed.
-/
theorem searchReaches :
    (∀ s : Stmt, s.Reachable) ∧ ∀ (p : Program) (line : Nat), p.SearchReaches line := by
  refine ⟨Stmt.reachable, fun p line => ⟨?_, ?_, ?_, ?_⟩⟩
  · intro place h
    obtain ⟨c', l, before, after, t, hplace, hp, hfirst⟩ := reached_of_statementFrom? h
    obtain ⟨c, hc, hp'⟩ := exists_context hfirst.stmtAt?
    exact ⟨c, c', l, _, before.length, t, hfirst, hp', hc,
      slotAt?_eq_some_iff.2 ⟨c, hc, hp', rfl⟩, hp, by simp,
      listSlot?_eq_some_iff.2 ⟨c', l, hplace, hp, rfl⟩⟩
  · intro place h
    obtain ⟨c, parent, t, hplace, hp, hfirst, -⟩ := reached_of_nondetFrom? h
    exact ⟨c, parent, t, hfirst, hp, hplace, slotAt?_eq_some_iff.2 ⟨c, hplace, hp, rfl⟩⟩
  · intro place seq thread h
    exact barIn_eq (b := ⟨seq, thread, line⟩) h
  · intro place assumption h hspeaks
    exact pinIn_eq h hspeaks

end Program

end WitnessReplay
