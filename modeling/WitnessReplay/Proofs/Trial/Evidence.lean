import WitnessReplay.Proofs.Text.Lossy
import WitnessReplay.Trial.Outcome

/-!
# What a trial goes by

A trial reaches the error by its exit code or by the marker in its output. The output is any bytes,
and the marker is looked for in the text that they are read as, where broken stretches are replaced.
This module says that nothing depends on that reading: the marker is in the text just where its
bytes are in the output (`outcome_ended`).
-/

namespace WitnessReplay

/-- A text can be cut at a mark just if the mark stands in it. -/
theorem Text.Pattern.isSome_cut {mark cs : List Char} :
    (cut mark cs).isSome ↔ mark <:+: cs := by
  induction cs with
  | nil =>
    rw [List.infix_nil, cut]
    by_cases h : mark = [] <;> simp [h]
  | cons c cs ih =>
    rw [List.infix_cons_iff, ← List.isPrefixOf_iff_prefix, ← ih, cut]
    by_cases h : mark.isPrefixOf (c :: cs) = true <;> simp [h]

/-- A run that ends by itself reaches the error by its exit code or by the marker. -/
theorem classify_eq_errorReached {exitCode : Option Int} {stdout : List Char} :
    classify exitCode stdout = .errorReached ↔
      exitCode = some errorExitCode ∨ errorMarker.toList <:+: stdout := by
  rw [← Text.Pattern.isSome_cut, classify]
  split
  next h => exact iff_of_true rfl h
  next h => exact iff_of_false (by simp) h

theorem ascii_errorMarker : ∀ c ∈ errorMarker.toList, c.toNat < 0x80 := by
  have hall : (errorMarker.toList.all fun c => c.toNat < 0x80) = true := by rfl
  simpa using List.all_eq_true.1 hall

/-- **Bytes that are no text neither hide nor forge the marker.** The output of a trial can be cut
in one way only into characters and maximal broken stretches, and the trial goes by the text in
which each of these stretches is one replacement character. Yet it reaches the error just if the
exit code is 74 or the bytes of the marker stand together in the output. -/
theorem TrialRecord.outcome_ended (exitCode : Option Int) (stdout stderr : List UInt8) :
    ∃ read, (∀ other, Text.Deciphered stdout other ↔ read = other) ∧
      (ofRun (.ended ⟨exitCode, stdout, stderr⟩)).stdout.toList = Text.replaced read ∧
      (ofRun (.ended ⟨exitCode, stdout, stderr⟩)).outcome
        = classify exitCode (Text.replaced read) ∧
      ((ofRun (.ended ⟨exitCode, stdout, stderr⟩)).outcome = .errorReached ↔
        exitCode = some 74 ∨ Text.encode "Reached error!".toList <:+: stdout) := by
  refine ⟨Text.decodeFrom none stdout, fun other => Text.deciphered_iff, ?_, rfl, ?_⟩
  · exact String.toList_ofList
  · have hmarker : errorMarker.toList <:+: Text.decodeLossy stdout ↔
        Text.encode errorMarker.toList <:+: stdout :=
      Text.infix_decodeLossy_iff ascii_errorMarker (by decide)
    exact classify_eq_errorReached.trans (or_congr_right hmarker)

example : Text.encode errorMarker.toList
    = [0x52, 0x65, 0x61, 0x63, 0x68, 0x65, 0x64, 0x20, 0x65, 0x72, 0x72, 0x6F, 0x72, 0x21] := by
  decide

end WitnessReplay
