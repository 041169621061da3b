import WitnessReplay.Replay.Assumption
import WitnessReplay.Replay.Target

/-!
# Pinned values

An assumption about a variable is made true by putting the value in the place of the call that the
variable takes its value from: the next one, counted from the line of the step. Where the next
nondeterministic value goes to a variable of which the assumption says nothing, nothing is pinned.
-/

namespace WitnessReplay

/-- A nondeterministic value that was replaced by a constant. -/
structure Pinned where
  name : String
  value : String
  type : String
  line : Option Nat
deriving DecidableEq, Repr

namespace Program

/-- Pins the next nondeterministic value from a line on, if the assumption says which it is. The
first constraint on the variable counts. -/
def pin? (p : Program) (assumption : String) (line : Nat) : Option (Program × Pinned) := do
  let place ← p.nondetFrom? line
  let target ← p.stmtAt? place
  let slot ← target.nondetSlot?
  let constraint ← (Assumption.parse assumption).find? (·.name == slot.name)
  some (p.modifyAt place (Stmt.withValue (.constant slot.type constraint.value)),
    ⟨slot.name, constraint.value, slot.type, target.line⟩)

end Program

end WitnessReplay
