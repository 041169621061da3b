import WitnessReplay.Witness.Graph

/-!
# The path of a witness

A witness can be replayed if it is a single chain: from its one entry, each state has at most one
transition to a state that is no sink. Transitions into sinks lead away from the violation and do
not count.

The walk keeps a list of the states where it has not been. Each step takes one off, which bounds the
walk; a step to a state that is not on the list closes a cycle.
-/

namespace WitnessReplay.WitnessGraph

/-- Whether a state is a sink. -/
def isSinkAt (g : WitnessGraph) (i : Nat) : Bool :=
  g.nodes[i]?.any WitnessNode.isSink

/-- The transitions that lead on from a state, with their numbers. -/
def onward (g : WitnessGraph) (i : Nat) : List (WitnessLink × Nat) :=
  g.links.zipIdx.filter fun (l, _) => l.source == i && !g.isSinkAt l.target

/-- The one state where the path begins. -/
def entryNode (g : WitnessGraph) : Except WitnessError Nat :=
  match g.entryCandidates with
  | [] => .error .noEntryNode
  | [entry] => .ok entry
  | many => .error (.multipleEntryNodes many.length)

/-- The numbers of the transitions from a state to the end of its chain. -/
def walk (g : WitnessGraph) (unvisited : List Nat) (i : Nat) : Except WitnessError (List Nat) :=
  match g.onward i with
  -- the chain ends here, whether or not transitions lead from here to sinks
  | [] => .ok []
  | [(link, number)] =>
    if link.target ∈ unvisited then
      match g.walk (unvisited.erase link.target) link.target with
      | .error e => .error e
      | .ok path => .ok (number :: path)
    else .error (.hasCycle (g.idOf link.target))
  | _ => .error (.hasBranching (g.idOf i))
termination_by unvisited.length
decreasing_by
  have := List.length_erase_of_mem ‹_›
  have := List.length_pos_of_mem ‹_›
  omega

/-- The numbers of the transitions of a violation witness, in the order of the path. -/
def extractPath (g : WitnessGraph) : Except WitnessError (List Nat) := do
  g.ensureViolation
  let entry ← g.entryNode
  g.walk ((List.range g.nodes.length).erase entry) entry

end WitnessReplay.WitnessGraph
