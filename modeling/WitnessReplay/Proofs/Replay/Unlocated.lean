import Mathlib.Logic.Basic
import WitnessReplay.Replay.Session

/-!
# Steps without a position

A step of a witness has a position if its hints give both ends of a range. They give none if they
say nothing at all, but also if they say something of one end only: the start of a range is not
found from its end, nor the end from an offset at its start (`SourceText.resolve_eq_none_iff`). A
replay passes over a step without position, whatever it says of threads and values
(`Session.run_located`).
-/

namespace WitnessReplay

/-! ### Hints -/

namespace LocationHints

/-- Neither a line nor an offset is given. -/
def Silent (hints : LocationHints) : Prop :=
  hints.startline = none ∧ hints.endline = none ∧ hints.startoffset = none ∧ hints.endoffset = none

/-- Something is given, but only of one end of the range. A line at the start is of both ends, since
it is also the last one if no other is given. -/
inductive OneSided : LocationHints → Prop
  | start (offset : Nat) : OneSided ⟨none, none, some offset, none⟩
  | stop {endline endoffset : Option Nat} (h : endline ≠ none ∨ endoffset ≠ none) :
      OneSided ⟨none, endline, none, endoffset⟩

variable {hints : LocationHints}

theorem OneSided.not_silent (h : hints.OneSided) : ¬ hints.Silent := by
  rintro ⟨-, hendline, hstartoffset, hendoffset⟩
  cases h with
  | start offset => cases hstartoffset
  | stop h => exact h.elim (· hendline) (· hendoffset)

/-- There is no line at the start, and no offset there or nothing of the end. -/
theorem silent_or_oneSided_iff : hints.Silent ∨ hints.OneSided ↔
    hints.startline = none ∧
      (hints.startoffset = none ∨ hints.endline = none ∧ hints.endoffset = none) := by
  constructor
  · rintro (⟨hstartline, -, hstartoffset, -⟩ | h)
    · exact ⟨hstartline, .inl hstartoffset⟩
    · cases h with
      | start offset => exact ⟨rfl, .inr ⟨rfl, rfl⟩⟩
      | stop => exact ⟨rfl, .inl rfl⟩
  · obtain ⟨startline, endline, startoffset, endoffset⟩ := hints
    rintro ⟨rfl, rfl | ⟨rfl, rfl⟩⟩
    · by_cases h : endline = none ∧ endoffset = none
      · exact .inl ⟨rfl, h.1, rfl, h.2⟩
      · exact .inr (.stop (not_and_or.1 h))
    · cases startoffset with
      | none => exact .inl ⟨rfl, rfl, rfl, rfl⟩
      | some offset => exact .inr (.start offset)

end LocationHints

namespace SourceText

/-- Where both ends are known there is a range. -/
theorem resolve_eq_none {t : SourceText} {hints : LocationHints} : t.resolve hints = none ↔
    hints.startoffset.or (hints.startline.map t.offsetOfLine) = none ∨
      hints.endoffset.or ((hints.endline.or hints.startline).map fun l => t.offsetOfLine (l + 1))
        = none := by
  rw [resolve]
  dsimp only
  cases hints.startoffset.or (hints.startline.map t.offsetOfLine) with
  | none => exact iff_of_true rfl (.inl rfl)
  | some start =>
    cases hints.endoffset.or
        ((hints.endline.or hints.startline).map fun l => t.offsetOfLine (l + 1)) with
    | none => exact iff_of_true rfl (.inr rfl)
    | some stop => exact iff_of_false nofun (by simp)

/-- **Hints give no position exactly if they say nothing, or something of one end only**, and these
are two cases. -/
theorem resolve_eq_none_iff (t : SourceText) (hints : LocationHints) :
    (t.resolve hints = none ↔ hints.Silent ∨ hints.OneSided) ∧
      ¬ (hints.Silent ∧ hints.OneSided) := by
  refine ⟨?_, fun h => h.2.not_silent h.1⟩
  rw [LocationHints.silent_or_oneSided_iff, resolve_eq_none]
  simp only [Option.or_eq_none_iff, Option.map_eq_none_iff]
  constructor
  · rintro (⟨hstartoffset, hstartline⟩ | ⟨hendoffset, hendline, hstartline⟩)
    · exact ⟨hstartline, .inl hstartoffset⟩
    · exact ⟨hstartline, .inr ⟨hendline, hendoffset⟩⟩
  · rintro ⟨hstartline, hstartoffset | ⟨hendline, hendoffset⟩⟩
    · exact .inl ⟨hstartoffset, hstartline⟩
    · exact .inr ⟨hendoffset, hendline, hstartline⟩

/-- The last line alone gives no position, not even in a text of one line. -/
theorem not_silent_of_resolve_eq_none : ¬ ∀ (t : SourceText) (hints : LocationHints),
    t.resolve hints = none ↔ hints.Silent := by
  intro hall
  have hnone : SourceText.resolve ⟨Text.encode "int x;\n".toList⟩ ⟨none, some 1, none, none⟩ = none :=
    rfl
  exact absurd ((hall _ _).1 hnone).2.1 nofun

end SourceText

/-! ### The replay -/

namespace Session

variable {s : Session} {step : Transition}

theorem pin_of_coords_eq_none (h : step.coords = none) : s.pin step = s := by
  rw [pin, h]

theorem switch_of_coords_eq_none (h : step.coords = none) : s.switch step = .ok s := by
  rw [switch, h]

/-- **A replay passes over the steps without position.** -/
theorem run_located (s : Session) (steps : List Transition) :
    s.run (steps.filter (·.coords.isSome)) = s.run steps := by
  induction steps generalizing s with
  | nil => rfl
  | cons step rest ih =>
    rw [List.filter_cons]
    split
    next =>
      rw [run, run]
      cases (s.pin step).switch step with
      | ok next => exact ih next
      | error e => rfl
    next hskip =>
      have hcoords : step.coords = none := Option.not_isSome_iff_eq_none.1 hskip
      rw [ih, run, pin_of_coords_eq_none hcoords, switch_of_coords_eq_none hcoords]

end Session

end WitnessReplay
