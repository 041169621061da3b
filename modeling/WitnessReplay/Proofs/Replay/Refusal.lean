import WitnessReplay.Proofs.Replay.Pinning
import WitnessReplay.Proofs.Replay.Separation

/-!
# Steps that fail

A step fails for one reason only: it switches to another thread, and no statement of a block starts
on its line or later (`Session.Refuses`). The value that it assumes has been pinned by then, and
stays pinned; all else is what it was before the step (`Session.refuses_or_switches`).
-/

namespace WitnessReplay

namespace Transition

/-- The thread that a step with a position names. -/
def thread? (step : Transition) : Option Int :=
  step.coords.bind fun _ => step.metadata.threadId

/-- A step that does not switch threads names the active one, or none. -/
theorem thread?_of_switch?_eq_none {step : Transition} {active : Int}
    (h : step.switch? active = none) : step.thread?.getD active = active := by
  rw [switch?] at h
  rw [thread?]
  cases hcoords : step.coords with
  | none => rfl
  | some coords =>
    cases hthread : step.metadata.threadId with
    | none => rfl
    | some thread =>
      rw [hcoords, hthread] at h
      by_contra hne
      exact absurd h (by simpa using hne)

end Transition

/-- The search for a place of a barrier finds none exactly if all statements of blocks that have a
line start before the line. -/
theorem Program.statementFrom?_eq_none_iff_lt {p : Program} {line : Nat} :
    p.statementFrom? line = none ↔
      ∀ place t l, p.IsItem place t → t.line = some l → l < line := by
  rw [statementFrom?_eq_none_iff]
  constructor
  · intro h place t l ht hl
    by_contra hle
    exact h place t ⟨ht, l, hl, Nat.le_of_not_lt hle⟩
  · rintro h place t ⟨ht, l, hl, hle⟩
    exact absurd (h place t l ht hl) (Nat.not_lt.2 hle)

namespace Session

/-- A step cannot be replayed: it switches threads, and no statement of a block starts on its line
or later. -/
inductive Refuses (s : Session) (step : Transition) : ReplayError → Prop
  | intro {coords : Coords} {thread : Int} (hcoords : step.coords = some coords)
      (hthread : step.metadata.threadId = some thread) (hswitch : thread ≠ s.activeThread)
      (hbefore : ∀ place t l, s.program.IsItem place t → t.line = some l → l < coords.startline) :
      Refuses s step (.noTargetStatement coords.startline)

variable {s next : Session} {step : Transition} {e : ReplayError}

theorem switch_eq_error_iff : s.switch step = .error e ↔ s.Refuses step e := by
  rw [switch_eq]
  constructor
  · intro h
    split at h
    next => cases h
    next thread line hswitch =>
      obtain ⟨coords, hcoords, hthread, hne, rfl⟩ := Transition.switch?_eq_some_iff.1 hswitch
      split at h
      next hinsert =>
        cases h
        rw [Program.insertBarrier?_eq_map] at hinsert
        exact .intro hcoords hthread hne
          (Program.statementFrom?_eq_none_iff_lt.1 (Option.map_eq_none_iff.1 hinsert))
      next => cases h
  · rintro ⟨hcoords, hthread, hne, hbefore⟩
    rw [Transition.switch?_eq_some_iff.2 ⟨_, hcoords, hthread, hne, rfl⟩]
    dsimp only
    rw [Program.insertBarrier?_eq_map, Program.statementFrom?_eq_none_iff_lt.2 hbefore]
    rfl

/-- A switch of threads goes to the thread that the step names. -/
theorem activeThread_of_switch (h : s.switch step = .ok next) :
    next.activeThread = step.thread?.getD s.activeThread := by
  rcases switch_eq_ok h with ⟨hstays, rfl⟩ | ⟨thread, line, q, hswitch, -, rfl⟩
  · exact (Transition.thread?_of_switch?_eq_none hstays).symm
  · obtain ⟨coords, hcoords, hthread, -, -⟩ := Transition.switch?_eq_some_iff.1 hswitch
    rw [Transition.thread?, hcoords, hthread]
    rfl

/-- What is left of a session when a step fails: at most the value that the step assumes was pinned,
and nothing else happened. -/
structure KeepsButPin (s : Session) (step : Transition) (s' : Session) : Prop where
  eq_pin : s' = s.pin step
  nextSeq : s'.nextSeq = s.nextSeq
  activeThread : s'.activeThread = s.activeThread
  barriers : s'.report.barriers = s.report.barriers
  program : s'.program = s.program ∨
    ∃ (c : Program.Context) (target target' : Stmt) (pinned : Pinned),
      s.Assumes step c.place target pinned ∧ Stmt.PinnedTo pinned target target' ∧
        s.program = c.fill target ∧ s'.program = c.fill target'

theorem keepsButPin_pin (s : Session) (step : Transition) : s.KeepsButPin step (s.pin step) := by
  refine ⟨rfl, pin_nextSeq, pin_activeThread, pin_barriers, ?_⟩
  by_cases h : ∃ place target pinned, s.Assumes step place target pinned
  · obtain ⟨place, target, pinned, hassumes⟩ := h
    obtain ⟨c, target', rfl, hprogram, hpinned, heq⟩ := hassumes.pin_eq
    exact .inr ⟨c, target, target', pinned, hassumes, hpinned, hprogram, by rw [heq]⟩
  · simp only [not_exists] at h
    exact .inl (by rw [pin_eq_self h])

/-- A single step may be taken to switch first and to pin then. -/
theorem run_singleton (s : Session) (step : Transition) :
    s.run [step] =
      match s.switch step with
      | .ok next => (next.pin step, none)
      | .error e => (s.pin step, some e) := by
  rw [run, switch_pin]
  cases s.switch step <;> rfl

/-- **Steps that fail change nothing but a pin.** A step fails exactly if it switches threads and no
statement of a block starts on its line or later. Then only a value may have been pinned. A step
that does not fail makes the thread that it names the active one. -/
theorem refuses_or_switches (s : Session) (step : Transition) :
    (∀ e, (s.run [step]).2 = some e ↔ s.Refuses step e) ∧
      (∀ s' e, s.run [step] = (s', some e) → s.KeepsButPin step s') ∧
      ∀ s', s.run [step] = (s', none) →
        s'.activeThread = step.thread?.getD s.activeThread := by
  rw [run_singleton]
  cases hswitch : s.switch step with
  | ok next =>
    refine ⟨?_, ?_, ?_⟩
    · intro e
      rw [← switch_eq_error_iff, hswitch]
      simp
    · rintro s' e ⟨⟩
    · rintro s' ⟨⟩
      rw [pin_activeThread, activeThread_of_switch hswitch]
  | error e =>
    refine ⟨?_, ?_, ?_⟩
    · intro e'
      rw [← switch_eq_error_iff, hswitch]
      simp
    · rintro s' e' ⟨⟩
      exact s.keepsButPin_pin step
    · rintro s' ⟨⟩

end Session

/-- A source whose last statement takes a value and stands in no block. -/
def armSource : String :=
  "int x;\nint main() \x7b\n  if (x)\n    x = __VERIFIER_nondet_int();\n\x7d\n"

/-- A step to another thread at the last statement of the source, with a value for it. -/
def armStep : Transition :=
  ⟨some ⟨4, 1, 4, 0, ""⟩, ⟨some "x == 5;", none, some 1, none⟩⟩

theorem refuses_or_switches_armSource : ∃ p s', Program.parse armSource = .ok p ∧
    (Session.start p []).Refuses armStep (.noTargetStatement 4) ∧
    (Session.start p []).run [armStep] = (s', some (.noTargetStatement 4)) ∧
    (Session.start p []).KeepsButPin armStep s' ∧
    s'.report = ⟨[], [⟨"x", "5", "int", some 4⟩]⟩ := by
  have hall : ∃ p, Program.parse armSource = .ok p ∧
      ((Session.start p []).run [armStep]).2 = some (.noTargetStatement 4) ∧
      ((Session.start p []).run [armStep]).1.report = ⟨[], [⟨"x", "5", "int", some 4⟩]⟩ := by
    decide +kernel
  obtain ⟨p, hp, hfails, hreport⟩ := hall
  obtain ⟨hrefuses, hkeeps, -⟩ := (Session.start p []).refuses_or_switches armStep
  have hrun : (Session.start p []).run [armStep]
      = (((Session.start p []).run [armStep]).1, some (.noTargetStatement 4)) := Prod.ext rfl hfails
  exact ⟨p, _, hp, (hrefuses _).1 hfails, hrun, hkeeps _ _ hrun, hreport⟩

end WitnessReplay
