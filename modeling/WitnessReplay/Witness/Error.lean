import WitnessReplay.Host.FileError

/-!
# Why a witness cannot be replayed

Each constructor is a way in which a witness is rejected. `WitnessError.message` words it, and
`WitnessError.reason` gives the verdict that stands for it.
-/

namespace WitnessReplay

/-- What keeps a text from being a GraphML document. -/
inductive Malformation
  | notXml
  | wrongRoot (name : String)
  | noGraph
  | nodeWithoutId
  | edgeWithoutSource
  | edgeWithoutTarget
deriving DecidableEq, Repr

/-- The wording of a malformation. -/
def Malformation.message : Malformation → String
  | notXml => "XML"
  | wrongRoot name => "root element is <" ++ name ++ ">, expected <graphml>"
  | noGraph => "missing <graph> element"
  | nodeWithoutId => "<node> without id"
  | edgeWithoutSource => "<edge> without source"
  | edgeWithoutTarget => "<edge> without target"

/-- Why a witness cannot be replayed. -/
inductive WitnessError
  | unreadable (cause : FileError)
  | malformed (what : Malformation)
  | missingWitnessType
  | wrongWitnessKind (found : String)
  | noEntryNode
  | multipleEntryNodes (count : Nat)
  /-- More than one edge leads on from a node. -/
  | hasBranching (node : String)
  /-- The path comes to a node where it has been. -/
  | hasCycle (node : String)
  /-- An attribute that must be a number is none. -/
  | invalidAttribute (name value : String)
deriving DecidableEq, Repr

namespace WitnessError

/-- The wording of an error. -/
def message : WitnessError → String
  | unreadable cause => "failed to read witness: " ++ cause.message
  | malformed what => "malformed witness: " ++ what.message
  | missingWitnessType => "witness has no witness-type attribute"
  | wrongWitnessKind found => "expected a violation witness, found '" ++ found ++ "'"
  | noEntryNode => "witness has no entry node"
  | multipleEntryNodes count => "witness has " ++ toString count ++ " entry nodes"
  | hasBranching node => "witness branches at node '" ++ node ++ "'"
  | hasCycle node => "witness path revisits node '" ++ node ++ "'"
  | invalidAttribute name value =>
    "invalid value '" ++ value ++ "' for witness attribute '" ++ name ++ "'"

/-- The verdict that stands for an error. -/
def reason : WitnessError → String
  | wrongWitnessKind _ => "Correctness witness"
  | noEntryNode => "No entry node"
  | multipleEntryNodes _ => "Multiple entry nodes"
  | hasBranching _ => "Has branching"
  | hasCycle _ => "Has cycle"
  | unreadable _ => "Incompatible witness"
  | malformed _ => "Incompatible witness"
  | missingWitnessType => "Incompatible witness"
  | invalidAttribute .. => "Incompatible witness"

end WitnessError

end WitnessReplay
