import WitnessReplay.Replay.Barrier
import WitnessReplay.Replay.Pin
import WitnessReplay.Witness.Transition

/-!
# Replaying a witness

A session works the steps of a witness into a program, one after the other. A step first pins a
value, then places a barrier if its thread is not the active one. Steps without a position do
neither. Barriers are numbered from 0 in the order of the steps.

A session that fails keeps all that was done before, a pin of the failing step included.
-/

namespace WitnessReplay

/-- Why a step cannot be replayed. -/
inductive ReplayError
  /-- A switch of threads lies behind the last statement. -/
  | noTargetStatement (line : Nat)
deriving DecidableEq, Repr

namespace ReplayError

/-- The wording of an error. -/
def message : ReplayError → String
  | noTargetStatement line =>
    "no statement at or after line " ++ toString line ++ " to place a schedule barrier"

/-- The verdict that stands for an error. -/
def reason : ReplayError → String
  | noTargetStatement _ => "Incompatible witness"

end ReplayError

/-- What a session has done. -/
structure ReplayReport where
  barriers : List Barrier
  pinned : List Pinned
deriving DecidableEq, Repr

/-- A report of nothing done. -/
def ReplayReport.empty : ReplayReport := ⟨[], []⟩

/-- A program in the course of a replay: the number of the next barrier, the thread that is active,
and what has been done. -/
structure Session where
  program : Program
  nextSeq : Nat
  activeThread : Int
  report : ReplayReport

namespace Session

/-- The thread that is active before some steps: that of the first one, or 0. -/
def firstThread (steps : List Transition) : Int :=
  ((steps.head?.bind (·.metadata.threadId)).getD 0)

/-- The beginning of a replay of some steps. -/
def start (program : Program) (steps : List Transition) : Session :=
  ⟨program, 0, firstThread steps, .empty⟩

/-- Pins the value that a step assumes, if it does. -/
def pin (s : Session) (step : Transition) : Session :=
  match step.coords, step.metadata.assumption with
  | some coords, some assumption =>
    match s.program.pin? assumption coords.startline with
    | some (program, pinned) =>
      { s with program, report := { s.report with pinned := s.report.pinned ++ [pinned] } }
    | none => s
  | _, _ => s

/-- Places a barrier for a step to another thread. -/
def switch (s : Session) (step : Transition) : Except ReplayError Session :=
  match step.coords with
  | none => .ok s
  | some coords =>
    let thread := step.metadata.threadId.getD s.activeThread
    if thread = s.activeThread then .ok s
    else
      let barrier : Barrier := ⟨s.nextSeq, thread, coords.startline⟩
      match s.program.insertBarrier? barrier with
      | none => .error (.noTargetStatement coords.startline)
      | some program =>
        .ok {
          program
          nextSeq := s.nextSeq + 1
          activeThread := thread
          report := { s.report with barriers := s.report.barriers ++ [barrier] } }

/-- Works some steps into the program, up to the first that fails. -/
def run (s : Session) : List Transition → Session × Option ReplayError
  | [] => (s, none)
  | step :: rest =>
    -- the value is pinned first, and stays pinned where the barrier fails
    let pinned := s.pin step
    match pinned.switch step with
    | .ok next => next.run rest
    | .error e => (pinned, some e)

/-- A replay in two parts is the same as one in a single part: what fails in the first part fails
in the whole. -/
theorem run_append (s : Session) (steps more : List Transition) :
    s.run (steps ++ more) =
      match s.run steps with
      | (next, none) => next.run more
      | (next, some e) => (next, some e) := by
  induction steps generalizing s with
  | nil => rfl
  | cons step rest ih =>
    simp only [List.cons_append, run]
    split
    next next _ => exact ih next
    next => rfl

end Session

/-- Replays some steps on a program. -/
def Program.replay (p : Program) (steps : List Transition) : Session × Option ReplayError :=
  (Session.start p steps).run steps

end WitnessReplay
