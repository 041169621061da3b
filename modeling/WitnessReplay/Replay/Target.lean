import WitnessReplay.Program.Place
import WitnessReplay.Replay.Nondet

/-!
# Targets of a step

A step of a witness names a line. It concerns the first statement that starts there or later: for a
switch of threads one that stands in the list of a block, for a value one that takes up a
nondeterministic value. Statements that were inserted have no line and are passed over; what
surrounds them is not.
-/

namespace WitnessReplay

/-- Whether a statement starts on a line or later. -/
def Stmt.startsFrom (line : Nat) (s : Stmt) : Bool :=
  s.line.any (line ≤ ·)

namespace Program

/-- The first statement of a block that starts on a line or later. Blocks that begin before the line
are searched inside. -/
def statementFrom? (p : Program) (line : Nat) : Option Place :=
  p.find? fun inBlock s => inBlock && s.startsFrom line

/-- The first statement on a line or later that takes up a nondeterministic value, wherever it
stands. -/
def nondetFrom? (p : Program) (line : Nat) : Option Place :=
  p.find? fun _ s => s.startsFrom line && s.isNondetAssignment

end Program

end WitnessReplay
