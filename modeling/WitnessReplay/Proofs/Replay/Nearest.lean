import WitnessReplay.Proofs.Program.Beginning
import WitnessReplay.Proofs.Program.Search
import WitnessReplay.Proofs.Replay.Nesting

/-!
# The nearest statement

A step of a witness concerns the first statement, in the order of the text, that starts on its line
or later. In a program that was read the lines never decrease in that order, and no replay changes
the lines of the statements that were read. So the first such statement is also the nearest one: no
other that starts on the line or later starts on a lesser line (`Program.selectsNearest_replay`).
-/

namespace WitnessReplay

namespace Stmt

/-- A statement that gives a variable the value of a call to a function of the nondeterministic
family, by an assignment with a plain equals sign or as the declaration of the variable. -/
inductive Takes (name type : String) : Stmt → Prop
  | assigned {l : Option Nat} {callee : String} {args : List Expr}
      (h : nondetType? callee = some type) :
      Takes name type (leaf l (.evaluates (.assign (.ident name) "=" (.call callee args))))
  | declared {l : Option Nat} {text callee : String} {args : List Expr}
      (h : nondetType? callee = some type) :
      Takes name type (leaf l (.declares ⟨text, some name, some (.call callee args)⟩))

variable {s : Stmt} {name type : String}

/-- Where a value is put is told by the same statements that take one. -/
theorem nondetSlot?_eq_some : s.nondetSlot? = some ⟨name, type⟩ ↔ s.Takes name type := by
  constructor
  · intro h
    cases s with
    | block | headed | ifElse => cases h
    | leaf l content =>
      rw [nondetSlot?] at h
      unfold Leaf.nondetSlot? at h
      split at h
      next target op value =>
        split at h
        next hop =>
          obtain ⟨type', htype, heq⟩ := Option.map_eq_some_iff.1 h
          cases heq
          cases value with
          | call callee args => exact hop ▸ .assigned htype
          | assign | ident | constant | raw => cases htype
        next => cases h
      next text target init =>
        obtain ⟨type', htype, heq⟩ := Option.map_eq_some_iff.1 h
        cases heq
        cases init with
        | call callee args => exact .declared htype
        | assign | ident | constant | raw => cases htype
      next => cases h
  · intro h
    cases h with
    | assigned h | declared h => simp [nondetSlot?, Leaf.nondetSlot?, Expr.nondetType?, h]

/-- The search for a statement that takes a value knows the same statements. -/
theorem isNondetAssignment_iff : s.isNondetAssignment ↔ ∃ name type, s.Takes name type := by
  rw [← isSome_nondetSlot?, Option.isSome_iff_exists]
  constructor
  · intro h
    obtain ⟨⟨name, type⟩, h⟩ := h
    exact ⟨name, type, nondetSlot?_eq_some.1 h⟩
  · intro h
    obtain ⟨name, type, h⟩ := h
    exact ⟨⟨name, type⟩, nondetSlot?_eq_some.2 h⟩

/-- What it is to start from a line on. -/
theorem startsFrom_eq_true {line : Nat} : s.startsFrom line ↔ ∃ l, s.line = some l ∧ line ≤ l := by
  simp [startsFrom, Option.any_eq_true]

end Stmt

/-- The statements of a sort that start on a line or later. -/
def StartingFrom (line : Nat) (sort : Place → Stmt → Prop) (place : Place) (t : Stmt) : Prop :=
  sort place t ∧ ∃ l, t.line = some l ∧ line ≤ l

namespace Program

variable {p : Program} {place place' : Place} {t t' : Stmt} {line : Nat}

/-- A statement at a place that takes a nondeterministic value, wherever it stands. -/
def IsTaker (p : Program) (place : Place) (t : Stmt) : Prop :=
  p.IsBelow place t ∧ ∃ name type, t.Takes name type

/-- The search for a statement finds the first that starts from the line on and stands in a block.
-/
theorem finds_items (p : Program) (line : Nat) :
    p.Finds (fun inBlock s => inBlock && s.startsFrom line) (StartingFrom line p.IsItem) := by
  intro place t
  rw [StartingFrom, isItem_iff, ← Stmt.startsFrom_eq_true]
  constructor
  · intro h
    exact ⟨true, h.1, h.2⟩
  · intro h
    obtain ⟨inBlock, ho, htest⟩ := h
    obtain ⟨rfl, hstarts⟩ := Bool.and_eq_true_iff.1 htest
    exact ⟨ho, hstarts⟩

/-- The search for a value finds the first assignment that starts from the line on and takes one. -/
theorem finds_takers (p : Program) (line : Nat) :
    p.Finds (fun _ s => s.startsFrom line && s.isNondetAssignment)
      (StartingFrom line p.IsTaker) := by
  intro place t
  rw [StartingFrom, IsTaker, isBelow_iff, ← Stmt.startsFrom_eq_true, ← Stmt.isNondetAssignment_iff]
  constructor
  · intro h
    obtain ⟨⟨⟨inBlock, ho⟩, htakes⟩, hstarts⟩ := h
    exact ⟨inBlock, ho, Bool.and_eq_true_iff.2 ⟨hstarts, htakes⟩⟩
  · intro h
    obtain ⟨inBlock, ho, htest⟩ := h
    obtain ⟨hstarts, htakes⟩ := Bool.and_eq_true_iff.1 htest
    exact ⟨⟨⟨inBlock, ho⟩, htakes⟩, hstarts⟩

theorem statementFrom?_eq_some_iff :
    p.statementFrom? line = some place ↔ ∃ t, IsFirst (StartingFrom line p.IsItem) place t :=
  find?_eq_some_iff (p.finds_items line)

theorem statementFrom?_eq_none_iff :
    p.statementFrom? line = none ↔ ∀ place t, ¬ StartingFrom line p.IsItem place t :=
  find?_eq_none_iff (p.finds_items line)

/-- What the second search finds. -/
theorem nondetFrom?_eq_some_iff :
    p.nondetFrom? line = some place ↔ ∃ t, IsFirst (StartingFrom line p.IsTaker) place t :=
  find?_eq_some_iff (p.finds_takers line)

theorem nondetFrom?_eq_none_iff :
    p.nondetFrom? line = none ↔ ∀ place t, ¬ StartingFrom line p.IsTaker place t :=
  find?_eq_none_iff (p.finds_takers line)

/-! ### Lines in order -/

/-- The lines of the statements never decrease in the order of the text. -/
def Ascends (p : Program) : Prop :=
  (p.statements.filterMap Stmt.line).Pairwise (· ≤ ·)

/-- Of two statements with lines, the one that comes first starts on no greater line. -/
theorem Ascends.le (h : p.Ascends) (ht : p.IsBelow place t) (ht' : p.IsBelow place' t')
    (hbefore : place.Before place') {l l' : Nat} (hl : t.line = some l) (hl' : t'.line = some l') :
    l ≤ l' := by
  obtain ⟨inBlock, ho⟩ := isBelow_iff.1 ht
  obtain ⟨inBlock', ho'⟩ := isBelow_iff.1 ht'
  have hlines := List.pairwise_map.1 (List.pairwise_filterMap.1 h)
  have hplaces := List.pairwise_map.1 p.pairwise_places
  obtain ⟨front, back, hsplit⟩ := List.append_of_mem ho
  rw [hsplit] at ho' hlines hplaces
  rcases List.mem_append.1 ho' with hfront | hback
  · -- what stands in front comes before the one, and not behind it
    have hfirst := (List.pairwise_append.1 hplaces).2.2 _ hfront _ List.mem_cons_self
    exact absurd hbefore hfirst.asymm
  · rcases List.mem_cons.1 hback with heq | hback
    · cases heq
      exact absurd hbefore hbefore.asymm
    · exact List.rel_of_pairwise_cons (List.pairwise_append.1 hlines).2.1 hback l hl l' hl'

end Program

/-- A statement of a sort that starts on a line or later, and is the nearest to the line of all such
statements: it has the least line of them, and it is the first of them in the order of the text. -/
def IsNearest (sort : Place → Stmt → Prop) (line : Nat) (place : Place) (t : Stmt) : Prop :=
  ∃ l, sort place t ∧ t.line = some l ∧ line ≤ l ∧
    ∀ place' t' l', sort place' t' → t'.line = some l' → line ≤ l' →
      l ≤ l' ∧ (place' = place ∨ place.Before place')

/-- What a search from a line on finds is the nearest statement of a sort, and it finds one whenever
one of the sort starts on the line or later. -/
structure SelectsNearest (sort : Place → Stmt → Prop) (line : Nat) (found : Option Place) :
    Prop where
  isSome_iff : found.isSome ↔ ∃ place t l, sort place t ∧ t.line = some l ∧ line ≤ l
  isNearest : ∀ place, found = some place → ∃ t, IsNearest sort line place t

namespace Program

variable {p : Program} {sort : Place → Stmt → Prop} {line : Nat}

/-- Where lines never decrease, the first statement is the nearest. -/
theorem Ascends.isNearest (h : p.Ascends) (hsort : ∀ place t, sort place t → p.IsBelow place t)
    {place : Place} {t : Stmt} (hfirst : IsFirst (StartingFrom line sort) place t) :
    IsNearest sort line place t := by
  obtain ⟨⟨ht, l, hl, hle⟩, hfirst⟩ := hfirst
  refine ⟨l, ht, hl, hle, ?_⟩
  intro place' t' l' ht' hl' hle'
  rcases hfirst place' t' ⟨ht', l', hl', hle'⟩ with rfl | hbefore
  · obtain rfl := (hsort _ t ht).eq (hsort _ t' ht')
    rw [hl] at hl'
    cases hl'
    exact ⟨Nat.le_refl l, .inl rfl⟩
  · exact ⟨h.le (hsort _ t ht) (hsort _ t' ht') hbefore hl hl', .inr hbefore⟩

/-- In a program whose lines ascend, the first statement from a line on is the nearest to it. -/
theorem Ascends.selectsNearest (h : p.Ascends) (hsort : ∀ place t, sort place t → p.IsBelow place t)
    {found : Option Place}
    (hsome : ∀ place, found = some place ↔ ∃ t, IsFirst (StartingFrom line sort) place t)
    (hnone : found = none ↔ ∀ place t, ¬ StartingFrom line sort place t) :
    SelectsNearest sort line found := by
  constructor
  · rw [Option.isSome_iff_ne_none, Ne, hnone]
    constructor
    · intro hne
      obtain ⟨place, hne⟩ := Classical.not_forall.1 hne
      obtain ⟨t, ht⟩ := Classical.not_forall_not.1 hne
      obtain ⟨ht, l, hl, hle⟩ := ht
      exact ⟨place, t, l, ht, hl, hle⟩
    · intro hsome hnone
      obtain ⟨place, t, l, ht, hl, hle⟩ := hsome
      exact hnone place t ⟨ht, l, hl, hle⟩
  · intro place hplace
    obtain ⟨t, hfirst⟩ := (hsome place).1 hplace
    exact ⟨t, h.isNearest hsort hfirst⟩

/-- The lines of a program that was read never decrease, and a replay of whatever steps leaves them.
-/
theorem ascends_replay {source : String} (h : Program.parse source = .ok p)
    (steps : List Transition) : (p.replay steps).1.program.Ascends := by
  have hlines := Session.lines_run (Prod.eta ((Session.start p steps).run steps)).symm
  rw [Ascends, replay, hlines]
  exact List.pairwise_filterMap.2 (pairwise_line_of_parse h)

/-- **A search finds the nearest statement**, in a program that was read and in what a replay of
whatever steps leaves of it, whether or not it fails: the search for a place of a barrier among the
statements in the lists of blocks, the search for a value among all that take one. -/
theorem selectsNearest_replay {source : String} (h : Program.parse source = .ok p)
    (steps : List Transition) (line : Nat) :
    SelectsNearest (p.replay steps).1.program.IsItem line
        ((p.replay steps).1.program.statementFrom? line) ∧
      SelectsNearest (p.replay steps).1.program.IsTaker line
        ((p.replay steps).1.program.nondetFrom? line) := by
  have hascends := ascends_replay h steps
  constructor
  · exact hascends.selectsNearest (fun _ _ ht => ht.isBelow)
      (fun _ => statementFrom?_eq_some_iff) statementFrom?_eq_none_iff
  · exact hascends.selectsNearest (fun _ _ ht => ht.1)
      (fun _ => nondetFrom?_eq_some_iff) nondetFrom?_eq_none_iff

end Program

theorem selectsNearest_replay_branchingSource : ∃ p, Program.parse branchingSource = .ok p ∧
    (∃ place t, p.nondetFrom? 2 = some place ∧ IsNearest p.IsTaker 2 place t) ∧
    ∃ s, p.replay branchingSteps = (s, none) ∧
      ∃ place t, s.program.statementFrom? 5 = some place ∧
        IsNearest s.program.IsItem 5 place t := by
  have hall : ∃ p, Program.parse branchingSource = .ok p ∧ (p.nondetFrom? 2).isSome ∧
      (p.replay branchingSteps).2 = none ∧
      ((p.replay branchingSteps).1.program.statementFrom? 5).isSome := by decide +kernel
  obtain ⟨p, hp, htaker, hdone, hitem⟩ := hall
  obtain ⟨place, hplace⟩ := Option.isSome_iff_exists.1 htaker
  obtain ⟨place', hplace'⟩ := Option.isSome_iff_exists.1 hitem
  obtain ⟨t, ht⟩ := (Program.selectsNearest_replay hp [] 2).2.isNearest place hplace
  obtain ⟨t', ht'⟩ := (Program.selectsNearest_replay hp branchingSteps 5).1.isNearest place' hplace'
  exact ⟨p, hp, ⟨place, t, hplace, ht⟩, _, Prod.ext rfl hdone, place', t', hplace', ht'⟩

end WitnessReplay
