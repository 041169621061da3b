import WitnessReplay.Replay.Target

/-!
# Schedule barriers

Where a witness switches threads, the program is made to wait for the switch. A barrier is a pair of
calls: `yield` before the statement at which the switch happens, `release` as the first thing done
once that statement has been entered. A statement that has no inside, or that a jump can enter
elsewhere than at its head, is released behind it.
-/

namespace WitnessReplay

/-- A barrier that was placed: its number, the thread that is switched to, and the line that the
witness names. -/
structure Barrier where
  seq : Nat
  threadId : Int
  line : Nat
deriving DecidableEq, Repr

/-- The name of the call that waits for a barrier's turn. -/
def yieldName : String := "yield"

/-- The name of the call that lets the next barrier have its turn. -/
def releaseName : String := "release"

/-- A call of a marker for a barrier. -/
def marker (name : String) (seq : Nat) (thread : Int) : Stmt :=
  .call name [.int (toString seq), .int (toString thread)]

/-- Whether a body under a head is done first once the head is entered. -/
def Head.entersBody : Head → Bool
  | .ifThen _ => true
  | .whileDo _ => true
  | .doWhile _ => true
  | .forLoop _ => true
  | .switch _ => false
  | .label _ => false

namespace Stmt

/-- A body with a statement in front. A body that is no block becomes one, without a line. -/
def prepend (first : Stmt) : Stmt → Stmt
  | block l items => block l (first :: items)
  | body => block none [first, body]

/-- A statement with another one as the first thing done inside, in every arm; nothing for a
statement that has no such inside. -/
def enterWith? (first : Stmt) : Stmt → Option Stmt
  | block l items => some (block l (first :: items))
  | headed l head body =>
    if head.entersBody then some (headed l head (prepend first body)) else none
  | ifElse l cond thenBranch elseBranch =>
    some (ifElse l cond (prepend first thenBranch) (prepend first elseBranch))
  | leaf .. => none

/-- A statement between the markers of a barrier. -/
def guarded (seq : Nat) (thread : Int) (target : Stmt) : List Stmt :=
  let waits := marker yieldName seq thread
  let frees := marker releaseName seq thread
  match enterWith? frees target with
  | some entered => [waits, entered]
  | none => [waits, target, frees]

end Stmt

/-- Places a barrier at the first statement of a block from a line on, if there is one. The list to
place it in is looked up once more by the place that was found. -/
def Program.insertBarrier? (p : Program) (b : Barrier) : Option Program := do
  let place ← p.statementFrom? b.line
  let _ ← p.enclosingList? place
  some (p.spliceAt place (Stmt.guarded b.seq b.threadId))

end WitnessReplay
