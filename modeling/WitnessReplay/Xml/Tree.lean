import WitnessReplay.Xml.Markup

/-!
# XML trees

The pieces of markup are put together to a tree of elements. References are resolved and line ends
normalized; every prefix must be bound by a declaration on its element or further out; no element
has two attributes of one name. `parse?` gives the root element of a document that is well formed in
this sense, and nothing for any other text.

Elements are known by their local names, whatever space those are in. Attributes keep the space
their prefix stands for, so that those without a prefix can be told from the others.
-/

namespace WitnessReplay.Xml

/-- An attribute: the space of its name, if it has one, its local name and its value. -/
structure Attribute where
  space : Option (List Char)
  name : String
  value : String
deriving Repr

/-- A node of a tree. -/
inductive Node
  | element (name : String) (attributes : List Attribute) (children : List Node)
  | text (content : List Char)
  /-- A comment or a processing instruction. -/
  | aside
deriving Repr

namespace Node

instance : Inhabited Node := ⟨aside⟩

/-- The nodes directly inside a node. -/
def children : Node → List Node
  | element _ _ cs => cs
  | _ => []

/-- The name of an element. -/
def name? : Node → Option String
  | element name _ _ => some name
  | _ => none

/-- Whether a node is an element of a name. -/
def isElement (name : String) (n : Node) : Bool :=
  n.name? == some name

/-- The value of an attribute whose name is in no space. -/
def attribute? (name : String) : Node → Option String
  | element _ attributes _ =>
    (attributes.find? fun a => a.space.isNone && a.name == name).map Attribute.value
  | _ => none

/-- The text that an element begins with. -/
def leadingText (n : Node) : List Char :=
  match n.children with
  | text content :: _ => content
  | _ => []

end Node

/-! ### References and line ends -/

/-- A character of a text: written as itself, or by a reference. -/
inductive Piece
  | plain (c : Char)
  | reference (c : Char)
deriving DecidableEq, Repr

/-- The digits of a number to a base, or nothing if a character is none. -/
def numberFrom? (base : Nat) (value : Nat) : List Char → Option Nat
  | [] => some value
  | c :: rest =>
    let digit :=
      if c.isDigit then some (c.toNat - '0'.toNat)
      else if 'a' ≤ c ∧ c ≤ 'f' then some (c.toNat - 'a'.toNat + 10)
      else if 'A' ≤ c ∧ c ≤ 'F' then some (c.toNat - 'A'.toNat + 10)
      else none
    match digit with
    | some d => if d < base then numberFrom? base (base * value + d) rest else none
    | none => none

/-- The character of a number. A number that is no character stands for the replacement character,
and one beyond 32 bits for nothing. -/
def characterOf? (base : Nat) (digits : List Char) : Option Char :=
  if digits.isEmpty then none
  else
    match numberFrom? base 0 digits with
    | some n =>
      let c := if n.isValidChar then Char.ofNat n else '\uFFFD'
      if n < UInt32.size && isXmlChar c then some c else none
    | none => none

/-- The character that the text between an ampersand and a semicolon refers to. -/
def referenced? (body : List Char) : Option Char :=
  match body with
  | '#' :: 'x' :: digits => characterOf? 16 digits
  | '#' :: digits => characterOf? 10 digits
  | _ =>
    match String.ofList body with
    | "lt" => some '<'
    | "gt" => some '>'
    | "amp" => some '&'
    | "quot" => some '"'
    | "apos" => some '\''
    | _ => none

/-- The characters of a text with its references resolved. `pending` holds what was read of a
reference, backwards. -/
def piecesFrom? : Option (List Char) → List Char → Option (List Piece)
  | none, [] => some []
  | some _, [] => none
  | none, c :: rest =>
    if c = '&' then piecesFrom? (some []) rest else (piecesFrom? none rest).map (.plain c :: ·)
  | some pending, c :: rest =>
    if c = ';' then do
      let d ← referenced? pending.reverse
      (piecesFrom? none rest).map (.reference d :: ·)
    else piecesFrom? (some (c :: pending)) rest

/-- A text with its line ends normalized: a carriage return, with a line feed that follows it,
becomes a line feed. One that comes from a reference stays, and so does one that directly precedes
a reference, or that comes last of all behind one. -/
def normalizeText (afterReference : Bool) : List Piece → List Char
  | [] => []
  | .reference c :: rest => c :: normalizeText true rest
  | [.plain c] => [if c = '\r' ∧ ¬ afterReference then '\n' else c]
  | .plain c :: .reference d :: rest => c :: d :: normalizeText true rest
  | .plain c :: .plain d :: rest =>
    if c = '\r' then
      if d = '\n' then '\n' :: normalizeText false rest
      else '\n' :: normalizeText false (.plain d :: rest)
    else c :: normalizeText false (.plain d :: rest)

/-- An attribute value with its white space normalized: each line end and each tab becomes a space,
unless it comes from a reference. -/
def normalizeValue : List Piece → List Char
  | [] => []
  | .reference c :: rest => c :: normalizeValue rest
  | .plain c :: rest =>
    if c = '\r' ∧ rest.head? = some (.plain '\n') then normalizeValue rest
    else (if c = '\r' ∨ c = '\n' ∨ c = '\t' then ' ' else c) :: normalizeValue rest

/-! ### Names and spaces -/

/-- The space that the prefix `xml` stands for. -/
def xmlSpace : List Char := "http://www.w3.org/XML/1998/namespace".toList

/-- The space of declarations of prefixes. -/
def xmlnsSpace : List Char := "http://www.w3.org/2000/xmlns/".toList

/-- Which space each prefix stands for, the innermost declaration first. -/
abbrev Scope := List (List Char × List Char)

/-- What the attributes of a tag are: declarations of prefixes, and the rest. -/
structure Declared where
  scope : Scope
  attributes : List (QName × List Char)

/-- Sorts the attributes of a tag. No prefix is declared twice; the prefix `xml` and its space
belong to each other alone; the space of declarations has no prefix. -/
def declare (attributes : List (QName × List Char)) : Option Declared :=
  match attributes with
  | [] => some ⟨[], []⟩
  | (name, value) :: rest => do
    let declared ← declare rest
    if name.qualifier = "xmlns".toList then
      let isXml := name.localName == "xml".toList
      -- nobody may bind the space of declarations
      if value = xmlnsSpace then none
      else if isXml != (value == xmlSpace) then none
      else if isXml then some declared
      else if declared.scope.any (·.1 = name.localName) then none
      else some { declared with scope := (name.localName, value) :: declared.scope }
    else if name.localName = "xmlns".toList then
      if value = xmlSpace ∨ value = xmlnsSpace then none else some declared
    else some { declared with attributes := (name, value) :: declared.attributes }

/-- The attribute that a name and a value stand for. The prefix `xml` needs no declaration here. -/
def resolve (scope : Scope) (name : QName) (value : List Char) : Option Attribute := do
  let space ←
    if name.qualifier = [] then some none
    else if name.qualifier = "xml".toList then some (some xmlSpace)
    else (scope.lookup name.qualifier).map some
  some ⟨space, String.ofList name.localName, String.ofList value⟩

/-- Whether no two attributes have one name. -/
def distinct : List Attribute → Bool
  | [] => true
  | a :: rest => !(rest.any fun b => a.space == b.space && a.name == b.name) && distinct rest

/-- An element whose end has not come yet: its tag, the scope inside it, and the nodes read so far,
the last one first. -/
structure Frame where
  name : QName
  scope : Scope
  attributes : List Attribute
  content : List Node

namespace Frame

/-- The element that a start tag opens in a scope. -/
def start (scope : Scope) (name : QName) (raw : List RawAttribute) : Option Frame := do
  let values ← raw.mapM fun a => (piecesFrom? none a.value).map fun ps =>
    (a.name, normalizeValue ps)
  let declared ← declare values
  -- the declarations of a tag hold for the tag itself
  let inner := declared.scope ++ scope
  let attributes ← declared.attributes.mapM fun (name, value) => resolve inner name value
  let bound := name.qualifier = [] || (inner.lookup name.qualifier).isSome
  if bound && name.qualifier ≠ "xmlns".toList && distinct attributes then
    some ⟨name, inner, attributes, []⟩
  else none

/-- The element with a further node. -/
def push (f : Frame) (n : Node) : Frame :=
  { f with content := n :: f.content }

/-- The element with further text, which joins text that stands last. -/
def pushText (f : Frame) (cs : List Char) : Frame :=
  match f.content with
  | .text before :: rest => { f with content := .text (before ++ cs) :: rest }
  | content => { f with content := .text cs :: content }

/-- The element at its end. -/
def close (f : Frame) : Node :=
  .element (String.ofList f.name.localName) f.attributes f.content.reverse

end Frame

/-- Reads the content of the innermost of some open elements, and gives the outermost one when it
closes, with the markup behind it. -/
def readContent (inner : Frame) (outer : List Frame) : List Markup → Option (Node × List Markup)
  | [] => none
  | .text raw :: rest => do
    let pieces ← piecesFrom? none raw
    readContent (inner.pushText (normalizeText false pieces)) outer rest
  | .cdata raw :: rest =>
    -- an ampersand in such a section is only a character
    readContent (inner.pushText (normalizeText false (raw.map .plain))) outer rest
  | .comment :: rest => readContent (inner.push .aside) outer rest
  | .instruction :: rest => readContent (inner.push .aside) outer rest
  | .lone name raw :: rest => do
    let frame ← Frame.start inner.scope name raw
    readContent (inner.push frame.close) outer rest
  | .opening name raw :: rest => do
    let frame ← Frame.start inner.scope name raw
    readContent frame (inner :: outer) rest
  | .closing name :: rest =>
    if name = inner.name then
      match outer with
      | [] => some (inner.close, rest)
      | parent :: others => readContent (parent.push inner.close) others rest
    else none

/-- Whether a piece of markup may stand outside the root element. -/
def isMisc : Markup → Bool
  | .comment => true
  | .instruction => true
  | .text raw => raw.all isXmlSpace
  | _ => false

/-- The root element of a document. -/
def parse? (source : String) : Option Node := do
  let pieces ← scan source.toList
  let (root, rest) ← match pieces.dropWhile isMisc with
    | .lone name raw :: rest => do
      let frame ← Frame.start [] name raw
      some (frame.close, rest)
    | .opening name raw :: rest => do
      let frame ← Frame.start [] name raw
      readContent frame [] rest
    | _ => none
  if rest.all isMisc then some root else none

end WitnessReplay.Xml
