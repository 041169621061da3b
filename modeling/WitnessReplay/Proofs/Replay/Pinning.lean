import WitnessReplay.Proofs.Program.Context
import WitnessReplay.Proofs.Replay.Nearest

/-!
# The pin of a step

A step that assumes something looks at one statement only: the first, from its line on, that takes a
nondeterministic value. If the assumption has a constraint on the variable of that statement, the
call there gives way to a constant (`Stmt.PinnedTo`) with the value of the first such constraint.
Otherwise nothing is pinned, even where a later statement takes a value for a variable that the
assumption speaks of (`Session.pins_value`).
-/

namespace WitnessReplay

/-- The first constraint of an assumption on a variable is that it has a value. -/
def Assumption.Says (assumption name value : String) : Prop :=
  ∃ earlier later, parse assumption = earlier ++ ⟨name, value⟩ :: later ∧
    ∀ constraint ∈ earlier, constraint.name ≠ name

theorem Assumption.find?_eq_some_iff {assumption name : String} {constraint : Constraint} :
    (parse assumption).find? (·.name == name) = some constraint ↔
      constraint.name = name ∧ Says assumption name constraint.value := by
  rw [List.find?_eq_some_iff_append, beq_iff_eq, Says]
  refine and_congr_right fun hname => ?_
  subst hname
  simp only [Bool.not_eq_true', beq_eq_false_iff_ne]

namespace Stmt

/-- A statement that takes a nondeterministic value, and the same statement with a constant where
the call was. -/
inductive PinnedTo (pin : Pinned) : Stmt → Stmt → Prop
  | assigned {callee : String} {args : List Expr} (h : nondetType? callee = some pin.type) :
      PinnedTo pin
        (leaf pin.line (.evaluates (.assign (.ident pin.name) "=" (.call callee args))))
        (leaf pin.line (.evaluates (.assign (.ident pin.name) "=" (.constant pin.type pin.value))))
  | declared {text callee : String} {args : List Expr} (h : nondetType? callee = some pin.type) :
      PinnedTo pin
        (leaf pin.line (.declares ⟨text, some pin.name, some (.call callee args)⟩))
        (leaf pin.line (.declares ⟨text, some pin.name, some (.constant pin.type pin.value)⟩))

/-- Putting a constant in the place of the value replaces the call and nothing else. -/
theorem Takes.pinnedTo {s : Stmt} {pin : Pinned} (h : s.Takes pin.name pin.type)
    (hline : s.line = pin.line) :
    PinnedTo pin s (s.withValue (.constant pin.type pin.value)) := by
  cases h with
  | assigned h =>
    cases hline
    exact .assigned h
  | declared h =>
    cases hline
    exact .declared h

end Stmt

/-- A value is pinned exactly if the assumption has a constraint on the variable of the first
statement that takes a value. -/
theorem Program.pin?_eq_some_iff {p q : Program} {assumption : String} {line : Nat} {pin : Pinned} :
    p.pin? assumption line = some (q, pin) ↔
      ∃ place t, IsFirst (StartingFrom line p.IsTaker) place t ∧ t.Takes pin.name pin.type ∧
        t.line = pin.line ∧ Assumption.Says assumption pin.name pin.value ∧
        q = p.modifyAt place (Stmt.withValue (.constant pin.type pin.value)) := by
  constructor
  · intro h
    obtain ⟨place, hplace, h⟩ := Option.bind_eq_some_iff.1 h
    obtain ⟨t, ht, h⟩ := Option.bind_eq_some_iff.1 h
    obtain ⟨⟨name, type⟩, hslot, h⟩ := Option.bind_eq_some_iff.1 h
    obtain ⟨constraint, hconstraint, h⟩ := Option.bind_eq_some_iff.1 h
    cases h
    obtain ⟨t', hfirst⟩ := nondetFrom?_eq_some_iff.1 hplace
    obtain rfl : t = t' := Option.some.inj (ht.symm.trans hfirst.1.1.1.1)
    exact ⟨place, t, hfirst, Stmt.nondetSlot?_eq_some.1 hslot, rfl,
      (Assumption.find?_eq_some_iff.1 hconstraint).2, rfl⟩
  · intro h
    obtain ⟨place, t, hfirst, htakes, hline, hvalue, rfl⟩ := h
    -- each of the four steps of the search succeeds on what is given
    have hplace := nondetFrom?_eq_some_iff.2 ⟨t, hfirst⟩
    have ht : p.stmtAt? place = some t := hfirst.1.1.1.1
    have hslot := Stmt.nondetSlot?_eq_some.2 htakes
    have hconstraint : (Assumption.parse assumption).find? (·.name == pin.name)
        = some ⟨pin.name, pin.value⟩ := Assumption.find?_eq_some_iff.2 ⟨rfl, hvalue⟩
    simp only [pin?, hplace, ht, hslot, hconstraint, hline, Option.bind_eq_bind, Option.bind_some]

namespace Session

/-- A step assumes the value of a pin for the statement at a place: the statement is the first, from
the line of the step on, that takes a nondeterministic value, and the value is that of the first
constraint on its variable. -/
inductive Assumes (s : Session) (step : Transition) (place : Place) (target : Stmt)
    (pinned : Pinned) : Prop
  | intro {coords : Coords} {assumption : String} (hcoords : step.coords = some coords)
      (hassumption : step.metadata.assumption = some assumption)
      (hfirst : IsFirst (StartingFrom coords.startline s.program.IsTaker) place target)
      (htakes : target.Takes pinned.name pinned.type) (hline : target.line = pinned.line)
      (hvalue : Assumption.Says assumption pinned.name pinned.value)

variable {s : Session} {step : Transition} {place : Place} {target : Stmt} {pinned : Pinned}

/-- A value that a step assumes is pinned, and nothing else in the program is changed. -/
theorem Assumes.pin_eq (h : s.Assumes step place target pinned) :
    ∃ (c : Program.Context) (target' : Stmt), c.place = place ∧ s.program = c.fill target ∧
      Stmt.PinnedTo pinned target target' ∧
      s.pin step = { s with
        program := c.fill target'
        report := { s.report with pinned := s.report.pinned ++ [pinned] } } := by
  obtain ⟨hcoords, hassumption, hfirst, htakes, hline, hvalue⟩ := h
  obtain ⟨c, rfl, hprogram⟩ := Program.exists_context hfirst.1.1.1.1
  refine ⟨c, _, rfl, hprogram, htakes.pinnedTo hline, ?_⟩
  rw [pin, hcoords, hassumption]
  dsimp only
  rw [Program.pin?_eq_some_iff.2 ⟨c.place, target, hfirst, htakes, hline, hvalue, rfl⟩]
  dsimp only
  rw [hprogram, Program.Context.modifyAt_fill]

/-- A step that assumes nothing for the statement that it looks at does nothing. -/
theorem pin_eq_self (h : ∀ place target pinned, ¬ s.Assumes step place target pinned) :
    s.pin step = s := by
  rw [pin]
  split
  next coords assumption hcoords hassumption =>
    split
    next q pinned hpin =>
      obtain ⟨place, t, hfirst, htakes, hline, hvalue, -⟩ := Program.pin?_eq_some_iff.1 hpin
      exact absurd (.intro hcoords hassumption hfirst htakes hline hvalue) (h place t pinned)
    next => rfl
  next => rfl

/-- **Pinning touches exactly the right call.** If a step assumes a value for the first statement
that takes one from its line on, the call there gives way to a constant of the type and the value,
and the pin is reported; nothing else changes. If it assumes none, nothing changes at all. -/
theorem pins_value (s : Session) (step : Transition) :
    (∀ place target pinned, s.Assumes step place target pinned →
      ∃ (c : Program.Context) (target' : Stmt), c.place = place ∧ s.program = c.fill target ∧
        Stmt.PinnedTo pinned target target' ∧
        s.pin step = { s with
          program := c.fill target'
          report := { s.report with pinned := s.report.pinned ++ [pinned] } }) ∧
    ((∀ place target pinned, ¬ s.Assumes step place target pinned) → s.pin step = s) :=
  ⟨fun _ _ _ h => h.pin_eq, pin_eq_self⟩

end Session

theorem pins_value_branchingSource : ∃ p place target, Program.parse branchingSource = .ok p ∧
    (Session.start p []).Assumes ⟨some ⟨3, 1, 3, 0, ""⟩, ⟨some "x == 5;", none, none, none⟩⟩ place
      target ⟨"x", "5", "int", some 3⟩ ∧
    ∃ (c : Program.Context) (target' : Stmt), c.place = place ∧ p = c.fill target ∧
      Stmt.PinnedTo ⟨"x", "5", "int", some 3⟩ target target' ∧
      (Session.start p []).pin ⟨some ⟨3, 1, 3, 0, ""⟩, ⟨some "x == 5;", none, none, none⟩⟩
        = ⟨c.fill target', 0, 0, ⟨[], [⟨"x", "5", "int", some 3⟩]⟩⟩ := by
  have hall : ∃ p, Program.parse branchingSource = .ok p ∧
      (p.pin? "x == 5;" 3).map Prod.snd = some ⟨"x", "5", "int", some 3⟩ := by decide +kernel
  obtain ⟨p, hp, hpin⟩ := hall
  obtain ⟨⟨q, pinned⟩, hpin, rfl⟩ := Option.map_eq_some_iff.1 hpin
  obtain ⟨place, target, hfirst, htakes, hline, hvalue, -⟩ := Program.pin?_eq_some_iff.1 hpin
  have hassumes : (Session.start p []).Assumes
      ⟨some ⟨3, 1, 3, 0, ""⟩, ⟨some "x == 5;", none, none, none⟩⟩ place target
      ⟨"x", "5", "int", some 3⟩ := .intro rfl rfl hfirst htakes hline hvalue
  exact ⟨p, place, target, hp, hassumes, (Session.pins_value _ _).1 _ _ _ hassumes⟩

end WitnessReplay
