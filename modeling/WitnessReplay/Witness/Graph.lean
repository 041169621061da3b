import WitnessReplay.GraphML.Document
import WitnessReplay.Text.Number

/-!
# Witness graphs

A violation witness is an automaton: states, some of them marked as entry or sink, and transitions
with what is known about the step. States are numbered in the order in which they are first
mentioned, whether as a state or as the end of a transition, and keep their numbers. A table beside
the states has their numbers by id; an id is looked up there and never searched for among the
states.
-/

namespace WitnessReplay

/-- A state of a witness. -/
structure WitnessNode where
  id : String
  isEntry : Bool
  isSink : Bool
deriving DecidableEq, Repr

/-- Adds markers to a state. -/
def WitnessNode.mark (n : WitnessNode) (isEntry isSink : Bool) : WitnessNode :=
  { n with isEntry := n.isEntry || isEntry, isSink := n.isSink || isSink }

/-- What a transition of a witness says about its step. -/
structure WitnessEdge where
  startline : Option Nat
  endline : Option Nat
  startoffset : Option Nat
  endoffset : Option Nat
  assumption : Option String
  control : Option String
  threadId : Option Int
  createThread : Option Int
deriving DecidableEq, Repr, Inhabited

/-- Reads an attribute that is a number. One that is absent or blank is not given. -/
def numberAttribute {α : Type} (read? : List Char → Option α) (a : Attributes) (name : String) :
    Except WitnessError (Option α) :=
  match a.get? name with
  | none => .ok none
  | some value =>
    let digits := Text.trim value.toList
    -- an empty element gives no number, and is no fault
    if digits.isEmpty then .ok none
    else
      match read? digits with
      | some n => .ok (some n)
      | none => .error (.invalidAttribute name (String.ofList digits))

/-- What attributes say about a step. Where several are no numbers the first in the order of the
reading is reported. -/
def WitnessEdge.ofAttributes (a : Attributes) : Except WitnessError WitnessEdge := do
  let startline ← numberAttribute Text.nat64? a "startline"
  let endline ← numberAttribute Text.nat64? a "endline"
  let startoffset ← numberAttribute Text.nat64? a "startoffset"
  let endoffset ← numberAttribute Text.nat64? a "endoffset"
  let threadId ← numberAttribute Text.int64? a "threadId"
  let createThread ← numberAttribute Text.int64? a "createThread"
  return {
    startline, endline, startoffset, endoffset
    assumption := a.get? "assumption"
    control := a.get? "control"
    threadId, createThread }

/-- A transition between two states, given by their numbers. -/
structure WitnessLink where
  source : Nat
  target : Nat
  edge : WitnessEdge
deriving DecidableEq, Repr

/-- A witness: its kind, its states and its transitions, each in the order of their numbers, and the
numbers of the states by their ids. -/
structure WitnessGraph where
  kind : Option String
  nodes : List WitnessNode
  links : List WitnessLink
  numbers : List (String × Nat)
deriving DecidableEq, Repr

/-- Whether a value says yes. -/
def isTrue (value : String) : Bool :=
  let trimmed := Text.trim value.toList
  trimmed.map Char.toLower == "true".toList || trimmed == ['1']

/-- Whether an element is marked under one of some names. -/
def isMarked (a : Attributes) (names : List String) : Bool :=
  names.any fun name => (a.get? name).any isTrue

namespace WitnessGraph

/-- A graph of a kind, with nothing in it. -/
def empty (kind : Option String) : WitnessGraph :=
  ⟨kind, [], [], []⟩

/-- The number of the state with an id. -/
def index? (g : WitnessGraph) (id : String) : Option Nat :=
  g.numbers.lookup id

/-- The id of the state with a number. -/
def idOf (g : WitnessGraph) (i : Nat) : String :=
  (g.nodes[i]?.map WitnessNode.id).getD ""

/-- Mentions a state with markers: one of a new id comes last and is entered in the table, one of a
known id keeps its number and gains the markers. -/
def addNode (g : WitnessGraph) (id : String) (isEntry isSink : Bool) : WitnessGraph :=
  match g.index? id with
  | some i => { g with nodes := g.nodes.modify i (·.mark isEntry isSink) }
  | none =>
    { g with
      nodes := g.nodes ++ [⟨id, isEntry, isSink⟩]
      numbers := (id, g.nodes.length) :: g.numbers }

/-- Adds a transition, and its ends where they are new. -/
def addEdge (g : WitnessGraph) (source target : String) (edge : WitnessEdge) : WitnessGraph :=
  let ends := (g.addNode source false false).addNode target false false
  let link : WitnessLink :=
    ⟨(ends.index? source).getD 0, (ends.index? target).getD 0, edge⟩
  { ends with links := ends.links ++ [link] }

/-- Adds transitions in order, until one says something that is no number. -/
def addEdges (g : WitnessGraph) : List GraphML.DocumentEdge → Except WitnessError WitnessGraph
  | [] => .ok g
  | e :: rest =>
    match WitnessEdge.ofAttributes e.attributes with
    | .error error => .error error
    | .ok edge => (g.addEdge e.source e.target edge).addEdges rest

/-- The witness that a document holds. -/
def ofDocument (doc : GraphML.Document) : Except WitnessError WitnessGraph :=
  let start := empty (doc.graph.get? "witness-type")
  let withNodes := doc.nodes.foldl
    (fun g n => g.addNode n.id (isMarked n.attributes ["entry", "isEntryNode"])
      (isMarked n.attributes ["sink", "isSinkNode"])) start
  withNodes.addEdges doc.edges

/-- Reads a witness. -/
def parse (source : String) : Except WitnessError WitnessGraph :=
  match GraphML.Document.parse source with
  | .error e => .error e
  | .ok doc => ofDocument doc

/-- Fails unless the graph is a violation witness. -/
def ensureViolation (g : WitnessGraph) : Except WitnessError Unit :=
  match g.kind with
  | none => .error .missingWitnessType
  | some kind =>
    let found := Text.trim kind.toList
    if found = "violation_witness".toList then .ok ()
    else .error (.wrongWitnessKind (String.ofList found))

/-- The numbers of the states where the path may begin: those marked as entry, and if there are none
those with a transition out and none in. -/
def entryCandidates (g : WitnessGraph) : List Nat :=
  let all := List.range g.nodes.length
  let marked := all.filter fun i => g.nodes[i]?.any WitnessNode.isEntry
  if marked.isEmpty then
    all.filter fun i => !(g.links.any (·.target == i)) && g.links.any (·.source == i)
  else marked

end WitnessGraph

end WitnessReplay
