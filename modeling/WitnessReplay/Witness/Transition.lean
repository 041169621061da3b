import WitnessReplay.Source.Position
import WitnessReplay.Witness.Path

/-!
# Transitions

A transition is a step of the path of a witness, with its position resolved against the program:
what a replay works through, one after the other.
-/

namespace WitnessReplay

/-- What a step says beside its position. -/
structure TransitionMetadata where
  assumption : Option String
  control : Option String
  threadId : Option Int
  createThread : Option Int
deriving DecidableEq, Repr, Inhabited

/-- A step of a witness, in the order of the execution. -/
structure Transition where
  coords : Option Coords
  metadata : TransitionMetadata
deriving DecidableEq, Repr

namespace WitnessEdge

/-- Where a step is said to be. -/
def hints (e : WitnessEdge) : LocationHints :=
  ⟨e.startline, e.endline, e.startoffset, e.endoffset⟩

/-- What a step says beside its position. -/
def metadata (e : WitnessEdge) : TransitionMetadata :=
  ⟨e.assumption, e.control, e.threadId, e.createThread⟩

end WitnessEdge

/-- A step with its position in a program. -/
def Transition.resolve (source : SourceText) (edge : WitnessEdge) : Transition :=
  ⟨source.resolve edge.hints, edge.metadata⟩

/-- The steps of a witness, with their positions in a program. -/
def WitnessGraph.transitions (g : WitnessGraph) (source : SourceText) :
    Except WitnessError (List Transition) :=
  match g.extractPath with
  | .error e => .error e
  | .ok path =>
    .ok (path.filterMap fun i => g.links[i]?.map fun l => Transition.resolve source l.edge)

end WitnessReplay
