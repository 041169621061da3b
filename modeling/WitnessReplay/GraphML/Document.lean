import WitnessReplay.GraphML.Attributes
import WitnessReplay.Text.Blank
import WitnessReplay.Witness.Error
import WitnessReplay.Xml.Tree

/-!
# GraphML documents

A GraphML document declares keys and gives values under them. A value is found under the id of its
key and under the name that the key declares, so a document may use either spelling. A key can have
a default, which stands for elements of its domain that give no value.

Only the first graph of a document counts.
-/

namespace WitnessReplay.GraphML

/-- The kinds of elements that have attributes. -/
inductive Domain
  | graph
  | node
  | edge
deriving DecidableEq, Repr

/-- The declaration of a key. Without a domain it is for all kinds of elements. -/
structure KeyDecl where
  id : String
  name : Option String
  domain : Option Domain
  default : Option String
deriving DecidableEq, Repr

/-- Whether a key is for a kind of element. -/
def KeyDecl.appliesTo (k : KeyDecl) (d : Domain) : Bool :=
  k.domain.all (· == d)

/-- A node of a document. -/
structure DocumentNode where
  id : String
  attributes : Attributes
deriving DecidableEq, Repr

/-- An edge of a document. -/
structure DocumentEdge where
  source : String
  target : String
  attributes : Attributes
deriving DecidableEq, Repr

/-- The first graph of a document, with its nodes and edges in order. -/
structure Document where
  graph : Attributes
  nodes : List DocumentNode
  edges : List DocumentEdge
deriving DecidableEq, Repr

/-- The names under which a value of a key is found. -/
def spellings (id : String) (name : Option String) : List String :=
  match name with
  | some n => if n = id then [id] else [id, n]
  | none => [id]

/-- The settings of a value under each of its spellings. -/
def settings (id : String) (name : Option String) (value : String) : List (String × String) :=
  (spellings id name).map fun n => (n, value)

/-- The settings that the defaults of keys make for a kind of element. -/
def defaultSettings (keys : List KeyDecl) (domain : Domain) : List (String × String) :=
  (keys.filter (·.appliesTo domain)).flatMap fun k =>
    match k.default with
    | some value => settings k.id k.name value
    | none => []

/-- The settings that given values make: each is a key id and a value, and the first declaration of
the id says what else the value is called. -/
def dataSettings (keys : List KeyDecl) (given : List (String × String)) :
    List (String × String) :=
  given.flatMap fun (id, value) =>
    settings id ((keys.find? (·.id == id)).bind KeyDecl.name) value

/-- The attributes of an element: the defaults first, so that given values win. -/
def attributesOf (keys : List KeyDecl) (domain : Domain) (given : List (String × String)) :
    Attributes :=
  Attributes.ofList (defaultSettings keys domain ++ dataSettings keys given)

/-! ### Reading elements -/

/-- The text that an element begins with, without blanks around it. -/
def contentOf (n : Xml.Node) : String :=
  String.ofList (Text.trim n.leadingText)

/-- The domain that a key declares. -/
def domainOf (value : Option String) : Option Domain :=
  match value with
  | some "graph" => some .graph
  | some "node" => some .node
  | some "edge" => some .edge
  | _ => none

/-- The key that an element declares; without an id it declares none. -/
def keyDecl? (n : Xml.Node) : Option KeyDecl :=
  (n.attribute? "id").map fun id =>
    { id
      name := n.attribute? "attr.name"
      domain := domainOf (n.attribute? "for")
      default := (n.children.find? (·.isElement "default")).map contentOf }

/-- The values given inside an element, under the ids of their keys. -/
def givenValues (n : Xml.Node) : List (String × String) :=
  (n.children.filter (·.isElement "data")).filterMap fun d =>
    (d.attribute? "key").map fun id => (id, contentOf d)

/-- The attributes of an element of a document. -/
def readAttributes (keys : List KeyDecl) (domain : Domain) (n : Xml.Node) : Attributes :=
  attributesOf keys domain (givenValues n)

/-- Adds the nodes and edges among some elements to a document, in their order. -/
def readElements (keys : List KeyDecl) (doc : Document) :
    List Xml.Node → Except Malformation Document
  | [] => .ok doc
  | n :: rest =>
    if n.isElement "node" then
      match n.attribute? "id" with
      | none => .error .nodeWithoutId
      | some id =>
        readElements keys
          { doc with nodes := doc.nodes ++ [⟨id, readAttributes keys .node n⟩] } rest
    else if n.isElement "edge" then
      match n.attribute? "source", n.attribute? "target" with
      | none, _ => .error .edgeWithoutSource
      | some _, none => .error .edgeWithoutTarget
      | some source, some target =>
        readElements keys
          { doc with edges := doc.edges ++ [⟨source, target, readAttributes keys .edge n⟩] } rest
    else readElements keys doc rest

/-- The document that a tree makes up. -/
def Document.ofTree (root : Xml.Node) : Except Malformation Document :=
  if root.isElement "graphml" then
    let keys := (root.children.filter (·.isElement "key")).filterMap keyDecl?
    match root.children.find? (·.isElement "graph") with
    | none => .error .noGraph
    | some graph =>
      readElements keys ⟨readAttributes keys .graph graph, [], []⟩ graph.children
  else .error (.wrongRoot (root.name?.getD ""))

/-- Reads a document. -/
def Document.parse (source : String) : Except WitnessError Document :=
  match Xml.parse? source with
  | none => .error (.malformed .notXml)
  | some root =>
    match Document.ofTree root with
    | .error what => .error (.malformed what)
    | .ok doc => .ok doc

end WitnessReplay.GraphML
