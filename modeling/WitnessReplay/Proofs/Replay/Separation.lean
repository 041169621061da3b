import WitnessReplay.Proofs.Replay.Step
import WitnessReplay.Proofs.Replay.Visit

/-!
# Pinning and switching apart

A step of a witness may pin a value and switch threads. The two commute (`Session.switch_pin`), so a
replay that succeeds may be taken apart: all values are pinned first and the threads switched on the
program that this leaves, or the other way round. Either way gives the program of the whole replay,
and each part reports its share (`Program.replay_separates`).
-/

namespace WitnessReplay

namespace Transition

/-- A step that says nothing of threads. -/
def withoutThread (step : Transition) : Transition :=
  { step with metadata := { step.metadata with threadId := none } }

/-- A step that assumes nothing. -/
def withoutAssumption (step : Transition) : Transition :=
  { step with metadata := { step.metadata with assumption := none } }

end Transition

namespace Session

variable {s next : Session} {step step' : Transition} {steps : List Transition}

/-- A session with another program and a further pin, if there is one. -/
def pinnedBy (s : Session) (pin : Option Pinned × Program) : Session :=
  { s with
    program := pin.2
    report := { s.report with pinned := s.report.pinned ++ pin.1.toList } }

/-- The pin of a step, where it has a position and an assumption. -/
theorem pin_eq (s : Session) (step : Transition) :
    s.pin step =
      match step.coords, step.metadata.assumption with
      | some coords, some assumption => s.pinnedBy (s.program.pinAt assumption coords.startline)
      | _, _ => s := by
  rw [pin]
  cases step.coords with
  | none => rfl
  | some coords =>
    cases step.metadata.assumption with
    | none => rfl
    | some assumption =>
      dsimp only
      rcases s.program.pin?_cases assumption coords.startline with
        ⟨hpin, hvisit⟩ | ⟨pin, q, hpin, hvisit⟩
      · rw [hpin, hvisit]
        simp [pinnedBy]
      · rw [hpin, hvisit]
        rfl

/-- **Pinning and switching commute.** The switch fails behind the pin exactly if it does without.
-/
theorem switch_pin (s : Session) (step step' : Transition) :
    (s.pin step).switch step' = (s.switch step').map (·.pin step) := by
  simp only [pin_eq]
  split
  next coords assumption hcoords hassumption =>
    simp only [switch_eq, pinnedBy]
    cases step'.switch? s.activeThread with
    | none => rfl
    | some target =>
      obtain ⟨thread, line⟩ := target
      obtain ⟨hbarrier, hpin⟩ := s.program.pinAt_insertBarrier? assumption coords.startline
        ⟨s.nextSeq, thread, line⟩
      dsimp only
      rw [hbarrier]
      cases hq : s.program.insertBarrier? ⟨s.nextSeq, thread, line⟩ with
      | none => rfl
      | some q => simp [Except.map, hpin q hq]
  next => cases s.switch step' <;> rfl

/-! ### All pins, all switches -/

/-- A session with the pins of some steps. -/
def pinAll (s : Session) (steps : List Transition) : Session :=
  steps.foldl pin s

/-- A session with the switches of some steps. -/
def switchAll (s : Session) (steps : List Transition) : Except ReplayError Session :=
  steps.foldlM switch s

/-- A thread switch finds the same statement after all pins. -/
theorem switch_pinAll (s : Session) (step : Transition) (steps : List Transition) :
    (s.pinAll steps).switch step = (s.switch step).map (·.pinAll steps) := by
  induction steps generalizing s with
  | nil => cases h : s.switch step <;> simp [pinAll, h, Except.map]
  | cons first rest ih =>
    have hrest := ih (s.pin first)
    rw [switch_pin] at hrest
    rw [pinAll, List.foldl_cons]
    refine hrest.trans ?_
    cases s.switch step <;> rfl

/-- All switches find theirs after one pin. -/
theorem switchAll_pin (s : Session) (step : Transition) (steps : List Transition) :
    (s.pin step).switchAll steps = (s.switchAll steps).map (·.pin step) := by
  induction steps generalizing s with
  | nil => rfl
  | cons first rest ih =>
    rw [switchAll, List.foldlM_cons, switch_pin, switchAll, List.foldlM_cons]
    cases s.switch first with
    | error e => rfl
    | ok next => exact ih next

/-- What is done step by step comes to the same as all pins and then all switches, and as all
switches and then all pins. -/
theorem separates_of_run (h : s.run steps = (next, none)) :
    (s.pinAll steps).switchAll steps = .ok next ∧
      ∃ switched, s.switchAll steps = .ok switched ∧ switched.pinAll steps = next := by
  induction steps generalizing s with
  | nil =>
    cases h
    exact ⟨rfl, _, rfl, rfl⟩
  | cons step rest ih =>
    obtain ⟨between, hbetween, hrest⟩ := next_of_run h
    obtain ⟨hpins, switched, hswitched, hnext⟩ := ih hrest
    constructor
    · rw [pinAll, List.foldl_cons, switchAll, List.foldlM_cons]
      have hswitch := switch_pinAll (s.pin step) step rest
      rw [hbetween] at hswitch
      rw [pinAll] at hswitch
      rw [hswitch]
      exact hpins
    · -- the switch is possible without the pin, and the pin is made behind all switches
      rw [switch_pin] at hbetween
      cases hfirst : s.switch step with
      | error e => rw [hfirst] at hbetween; cases hbetween
      | ok first =>
        rw [hfirst] at hbetween
        cases hbetween
        rw [switchAll_pin] at hswitched
        cases hall : first.switchAll rest with
        | error e => rw [hall] at hswitched; cases hswitched
        | ok last =>
          rw [hall] at hswitched
          cases hswitched
          refine ⟨last, ?_, hnext⟩
          rw [switchAll, List.foldlM_cons, hfirst]
          exact hall

/-! ### What a pin and a switch read -/

/-- A session of which the pins are forgotten. -/
def forgetPins (s : Session) : Session :=
  { s with report := { s.report with pinned := [] } }

/-- A session of which the barriers and the active thread are forgotten. -/
def forgetSwitches (s : Session) : Session :=
  { s with nextSeq := 0, activeThread := 0, report := { s.report with barriers := [] } }

/-- The pins do not depend on what was switched before. -/
theorem pinAll_forgetSwitches (s : Session) (steps : List Transition) :
    s.forgetSwitches.pinAll steps = (s.pinAll steps).forgetSwitches := by
  induction steps generalizing s with
  | nil => rfl
  | cons step rest ih =>
    have hpin : s.forgetSwitches.pin step = (s.pin step).forgetSwitches := by
      rw [pin_eq, pin_eq]
      split <;> rfl
    rw [pinAll, List.foldl_cons, hpin]
    exact ih (s.pin step)

theorem switch_forgetPins (s : Session) (step : Transition) :
    s.forgetPins.switch step = (s.switch step).map forgetPins := by
  have hactive : s.forgetPins.activeThread = s.activeThread := rfl
  rw [switch_eq, switch_eq, hactive]
  cases step.switch? s.activeThread with
  | none => rfl
  | some target =>
    obtain ⟨thread, line⟩ := target
    dsimp only [forgetPins]
    cases s.program.insertBarrier? ⟨s.nextSeq, thread, line⟩ <;> rfl

theorem switchAll_forgetPins (s : Session) (steps : List Transition) :
    s.forgetPins.switchAll steps = (s.switchAll steps).map forgetPins := by
  induction steps generalizing s with
  | nil => rfl
  | cons step rest ih =>
    rw [switchAll, List.foldlM_cons, switch_forgetPins, switchAll, List.foldlM_cons]
    cases s.switch step with
    | error e => rfl
    | ok next => exact ih next

/-- Pins leave the barriers and the active thread. -/
theorem pinAll_keeps (s : Session) (steps : List Transition) :
    (s.pinAll steps).nextSeq = s.nextSeq ∧ (s.pinAll steps).activeThread = s.activeThread ∧
      (s.pinAll steps).report.barriers = s.report.barriers := by
  induction steps generalizing s with
  | nil => exact ⟨rfl, rfl, rfl⟩
  | cons step rest ih =>
    obtain ⟨hseq, hthread, hbarriers⟩ := ih (s.pin step)
    exact ⟨hseq.trans pin_nextSeq, hthread.trans pin_activeThread, hbarriers.trans pin_barriers⟩

theorem switchAll_pinned (h : s.switchAll steps = .ok next) :
    next.report.pinned = s.report.pinned := by
  induction steps generalizing s with
  | nil =>
    cases h
    rfl
  | cons step rest ih =>
    rw [switchAll, List.foldlM_cons] at h
    cases hswitch : s.switch step with
    | error e => rw [hswitch] at h; cases h
    | ok between =>
      rw [hswitch] at h
      rw [ih h]
      rcases switch_eq_ok hswitch with ⟨-, rfl⟩ | ⟨_, _, _, -, -, rfl⟩ <;> rfl

/-! ### Runs of one sort -/

/-- A run without threads only pins. -/
theorem run_withoutThread (s : Session) (steps : List Transition) :
    s.run (steps.map Transition.withoutThread) = (s.pinAll steps, none) := by
  induction steps generalizing s with
  | nil => rfl
  | cons step rest ih =>
    have hswitch : (s.pin step).switch step.withoutThread = .ok (s.pin step) := by
      rw [switch_eq, Transition.switch?]
      cases step.withoutThread.coords <;> rfl
    rw [List.map_cons, run, show s.pin step.withoutThread = s.pin step from rfl, hswitch]
    exact ih (s.pin step)

/-- A run without assumptions only switches. -/
theorem run_withoutAssumption (h : s.switchAll steps = .ok next) :
    s.run (steps.map Transition.withoutAssumption) = (next, none) := by
  induction steps generalizing s with
  | nil =>
    cases h
    rfl
  | cons step rest ih =>
    rw [switchAll, List.foldlM_cons] at h
    have hpin : s.pin step.withoutAssumption = s := by
      rw [pin]
      cases step.withoutAssumption.coords <;> rfl
    rw [List.map_cons, run, hpin, show s.switch step.withoutAssumption = s.switch step from rfl]
    cases hswitch : s.switch step with
    | error e => rw [hswitch] at h; cases h
    | ok between =>
      rw [hswitch] at h
      exact ih h

/-- Without threads the first one is the main thread. -/
theorem firstThread_withoutThread (steps : List Transition) :
    firstThread (steps.map Transition.withoutThread) = 0 := by
  cases steps <;> rfl

/-- Assumptions say nothing of threads. -/
theorem firstThread_withoutAssumption (steps : List Transition) :
    firstThread (steps.map Transition.withoutAssumption) = firstThread steps := by
  cases steps <;> rfl

end Session

/-- **Pinning values and placing barriers are independent.** Pinning all values of a replay and then
placing all barriers on the program that this leaves gives the program of the whole replay, and so
does the other order. The steps without threads report the pins, those without assumptions the
barriers. -/
theorem Program.replay_separates {p : Program} {steps : List Transition} {s : Session}
    (h : p.replay steps = (s, none)) :
    (∃ pinned barred, p.replay (steps.map Transition.withoutThread) = (pinned, none) ∧
      pinned.program.replay (steps.map Transition.withoutAssumption) = (barred, none) ∧
      barred.program = s.program ∧ pinned.report = ⟨[], s.report.pinned⟩ ∧
      barred.report = ⟨s.report.barriers, []⟩) ∧
    ∃ barred pinned, p.replay (steps.map Transition.withoutAssumption) = (barred, none) ∧
      barred.program.replay (steps.map Transition.withoutThread) = (pinned, none) ∧
      pinned.program = s.program ∧ barred.report = ⟨s.report.barriers, []⟩ ∧
      pinned.report = ⟨[], s.report.pinned⟩ := by
  obtain ⟨hpins, switched, hswitched, hall⟩ := Session.separates_of_run h
  constructor
  · -- the pins first
    obtain ⟨hseq, hthread, hbarriers⟩ := (Session.start p steps).pinAll_keeps steps
    refine ⟨((Session.start p steps).pinAll steps).forgetSwitches, s.forgetPins, ?_, ?_, rfl, ?_, rfl⟩
    · rw [replay, Session.run_withoutThread, ← Session.pinAll_forgetSwitches, Session.start,
        Session.firstThread_withoutThread]
      rfl
    · refine Session.run_withoutAssumption ?_
      have hstart : Session.start ((Session.start p steps).pinAll steps).forgetSwitches.program
          (steps.map Transition.withoutAssumption)
            = ((Session.start p steps).pinAll steps).forgetPins := by
        rw [Session.start, Session.firstThread_withoutAssumption, Session.forgetPins]
        dsimp only
        rw [hseq, hthread, hbarriers]
        rfl
      rw [hstart, Session.switchAll_forgetPins, hpins]
      rfl
    · rw [Session.switchAll_pinned hpins]
      rfl
  · -- the switches first
    obtain ⟨-, -, hbarriers⟩ := switched.pinAll_keeps steps
    have hpinned := Session.switchAll_pinned hswitched
    rw [hall] at hbarriers
    refine ⟨switched, s.forgetSwitches, ?_, ?_, rfl, ?_, rfl⟩
    · rw [replay, Session.start, Session.firstThread_withoutAssumption]
      exact Session.run_withoutAssumption hswitched
    · have hstart : Session.start switched.program (steps.map Transition.withoutThread)
          = switched.forgetSwitches := by
        rw [Session.start, Session.firstThread_withoutThread, Session.forgetSwitches]
        dsimp only
        rw [hpinned]
        rfl
      rw [replay, Session.run_withoutThread, hstart, Session.pinAll_forgetSwitches, hall]
    · rw [hbarriers]
      exact congrArg (ReplayReport.mk _) hpinned

theorem replay_separates_branchingSource : ∃ p s, Program.parse branchingSource = .ok p ∧
    p.replay branchingSteps = (s, none) ∧ s.report.pinned ≠ [] ∧ s.report.barriers ≠ [] ∧
    (∃ pinned barred, p.replay (branchingSteps.map Transition.withoutThread) = (pinned, none) ∧
      pinned.program.replay (branchingSteps.map Transition.withoutAssumption) = (barred, none) ∧
      barred.program = s.program) ∧
    ∃ barred pinned, p.replay (branchingSteps.map Transition.withoutAssumption) = (barred, none) ∧
      barred.program.replay (branchingSteps.map Transition.withoutThread) = (pinned, none) ∧
      pinned.program = s.program := by
  obtain ⟨p, s, hp, hs, hreport⟩ := replay_branchingSource
  obtain ⟨⟨pinned, barred, hpinned, hbarred, hprogram, -, -⟩,
    ⟨barred', pinned', hbarred', hpinned', hprogram', -, -⟩⟩ := Program.replay_separates hs
  exact ⟨p, s, hp, hs, by simp [hreport], by simp [hreport],
    ⟨pinned, barred, hpinned, hbarred, hprogram⟩, barred', pinned', hbarred', hpinned', hprogram'⟩

end WitnessReplay
