import WitnessReplay.Trial.Outcome

/-!
# Verdicts

The outcomes of the trials are counted, and the counts decide the verdict: whether the error is
always, never or sometimes reached, among the trials that decide anything. The mode of a validation
says at which outcome further trials would no longer matter.
-/

namespace WitnessReplay

/-- When a validation stops early. -/
inductive Mode
  /-- At the first trial that does not reach the error. -/
  | strict
  /-- Never. -/
  | normal
  /-- At the first trial that reaches the error. -/
  | permissive
deriving DecidableEq, Repr

namespace Mode

/-- Whether an outcome stops a validation. -/
def shouldStop : Mode → Outcome → Bool
  | strict, .notReached => true
  | permissive, .errorReached => true
  | _, _ => false

/-- The name of a mode. -/
def name : Mode → String
  | strict => "strict"
  | normal => "normal"
  | permissive => "permissive"

/-- The mode of a name. -/
def ofName? (s : String) : Option Mode :=
  [strict, normal, permissive].find? (·.name == s)

/-- What is said of a name that no mode has. -/
def unknownMessage (s : String) : String :=
  "unknown mode '" ++ s ++ "' (expected strict, normal or permissive)"

end Mode

/-- What a validation finds. -/
inductive Verdict
  | always
  | never
  | sometimes
  /-- No trial decided anything. -/
  | timeout
deriving DecidableEq, Repr

/-- The name of a verdict. -/
def Verdict.name : Verdict → String
  | always => "ALWAYS"
  | never => "NEVER"
  | sometimes => "SOMETIMES"
  | timeout => "TIMEOUT"

/-- How often each outcome came. -/
structure Tally where
  reached : Nat
  notReached : Nat
  timedOut : Nat
deriving DecidableEq, Repr

namespace Tally

/-- The counts before any trial. -/
def empty : Tally := ⟨0, 0, 0⟩

/-- The counts after one more outcome. -/
def record (t : Tally) : Outcome → Tally
  | .errorReached => { t with reached := t.reached + 1 }
  | .notReached => { t with notReached := t.notReached + 1 }
  | .timedOut => { t with timedOut := t.timedOut + 1 }

/-- How many trials there were. -/
def total (t : Tally) : Nat :=
  t.reached + t.notReached + t.timedOut

/-- What the counts decide. -/
def verdict (t : Tally) : Verdict :=
  match decide (0 < t.reached), decide (0 < t.notReached) with
  | true, true => .sometimes
  | true, false => .always
  | false, true => .never
  | false, false => .timeout

/-- The line that reports the counts. -/
def message (t : Tally) : String :=
  "Trials: " ++ toString t.total ++ " (error reached: " ++ toString t.reached
    ++ ", not reached: " ++ toString t.notReached ++ ", timed out: " ++ toString t.timedOut ++ ")"

@[simp] theorem total_record (t : Tally) (o : Outcome) : (t.record o).total = t.total + 1 := by
  cases o <;> simp only [record, total] <;> omega

end Tally

end WitnessReplay
