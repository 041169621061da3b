/-!
# Repeated reading

Many things in a text are sequences: attributes, tokens, pieces of words. `collect` repeats a step
that takes one thing off the front of a text, until the step says that the sequence is done.
-/

namespace WitnessReplay.Text

/-- What a step of a repeated reading comes to: one more thing, or the end. -/
inductive Step (α : Type) where
  | more (value : α) (rest : List Char)
  | done (rest : List Char)

/-- Reads things off a text until a step says that it is done. A step that takes nothing would be
repeated forever, so it counts as a failure. -/
def collect {α : Type} (step : List Char → Option (Step α)) (cs : List Char) :
    Option (List α × List Char) :=
  match step cs with
  | none => none
  | some (.done rest) => some ([], rest)
  | some (.more value rest) =>
    if rest.length < cs.length then
      (collect step rest).map fun (values, after) => (value :: values, after)
    else none
termination_by cs.length

end WitnessReplay.Text
