import WitnessReplay.Text.Collect
import WitnessReplay.Text.Pattern

/-!
# XML markup

A document is first cut into its pieces of markup: tags, texts, comments, instructions. Whether the
pieces nest and what their names stand for is decided afterwards. Nothing here keeps track of
where in the document it is; there is no document type, and so no entity but the predefined ones.
-/

namespace WitnessReplay.Xml

open Text

/-! ### Characters and names -/

/-- Whether a character may occur in a document. -/
def isXmlChar (c : Char) : Bool :=
  let n := c.toNat
  if n < 0x20 then n == 0x9 || n == 0xA || n == 0xD else n != 0xFFFE && n != 0xFFFF

/-- Whether a character is white space in markup. -/
def isXmlSpace (c : Char) : Bool :=
  c == ' ' || c == '\t' || c == '\n' || c == '\r'

/-- The ranges of characters beyond ASCII that can begin a name. -/
def nameStartRanges : List (Nat × Nat) :=
  [(0xC0, 0xD6), (0xD8, 0xF6), (0xF8, 0x2FF), (0x370, 0x37D), (0x37F, 0x1FFF), (0x200C, 0x200D),
    (0x2070, 0x218F), (0x2C00, 0x2FEF), (0x3001, 0xD7FF), (0xF900, 0xFDCF), (0xFDF0, 0xFFFD),
    (0x10000, 0xEFFFF)]

/-- The ranges of characters beyond ASCII that can only continue a name. -/
def nameRestRanges : List (Nat × Nat) :=
  [(0xB7, 0xB7), (0x300, 0x36F), (0x203F, 0x2040)]

/-- Whether a character lies in one of some ranges. -/
def inRanges (ranges : List (Nat × Nat)) (c : Char) : Bool :=
  ranges.any fun (low, high) => low ≤ c.toNat && c.toNat ≤ high

/-- Whether a character can begin a name; the colon can. -/
def isNameStart (c : Char) : Bool :=
  if c.toNat < 0x80 then c.isAlpha || c == ':' || c == '_' else inRanges nameStartRanges c

/-- Whether a character can continue a name. -/
def isNameChar (c : Char) : Bool :=
  if c.toNat < 0x80 then c.isAlphanum || c == ':' || c == '_' || c == '-' || c == '.'
  else inRanges nameStartRanges c || inRanges nameRestRanges c

/-- A name as it is written: what stands before the colon, if there is one, and what behind. -/
structure QName where
  qualifier : List Char
  localName : List Char
deriving DecidableEq, Repr

/-- The qualified name that some characters make up. The local part must begin like a name, and so
must what stands before the colon, which may also be empty. -/
def QName.ofChars? (cs : List Char) : Option QName :=
  let parts := match cs.span (· ≠ ':') with
    | (before, ':' :: behind) => (before, behind)
    | (before, _) => ([], before)
  let (qualifier, localName) := parts
  if qualifier.head?.all isNameStart && localName.head?.any isNameStart
      && !localName.contains ':' then
    some ⟨qualifier, localName⟩
  else none

/-! ### Taking text apart -/

/-- Takes a qualified name off a text. -/
def takeQName (cs : List Char) : Option (QName × List Char) :=
  (QName.ofChars? (cs.takeWhile isNameChar)).map fun name => (name, cs.dropWhile isNameChar)

/-- Takes a name that may contain colons off a text. -/
def takeName (cs : List Char) : Option (List Char × List Char) :=
  if cs.head?.any isNameStart then some (cs.takeWhile isNameChar, cs.dropWhile isNameChar)
  else none

/-- A text without the white space at its start. -/
def skipSpace (cs : List Char) : List Char :=
  cs.dropWhile isXmlSpace

/-- The text behind a given word, which must stand at the front. -/
def afterWord (word : String) (cs : List Char) : Option (List Char) :=
  (Pattern.exactly word.toList cs).map Prod.snd

/-! ### Attributes and tags -/

/-- An attribute as it is written: references in its value still stand. -/
structure RawAttribute where
  name : QName
  value : List Char
deriving Repr

/-- Takes an attribute off a text: a name, an equals sign, a quoted value without a tag in it. -/
def takeAttribute (cs : List Char) : Option (RawAttribute × List Char) := do
  let (name, rest) ← takeQName cs
  let rest ← afterWord "=" (skipSpace rest)
  match skipSpace rest with
  | quote :: body =>
    if quote = '"' ∨ quote = '\'' then
      match body.span fun c => c ≠ quote && c ≠ '<' with
      | (value, close :: rest) => if close = quote then some (⟨name, value⟩, rest) else none
      | _ => none
    else none
  | [] => none

/-- The next attribute of a start tag, which white space must precede, or the end of the tag. -/
def attributeStep (cs : List Char) : Option (Step RawAttribute) :=
  match skipSpace cs with
  | [] => none
  | c :: rest =>
    if c = '/' ∨ c = '>' then some (.done (c :: rest))
    else if cs.head?.any isXmlSpace then
      (takeAttribute (c :: rest)).map fun (found, after) => .more found after
    else none

/-- A piece of markup. Texts and attribute values are as they are written. -/
inductive Markup
  | opening (name : QName) (attributes : List RawAttribute)
  /-- An element without content, closed where it opens. -/
  | lone (name : QName) (attributes : List RawAttribute)
  | closing (name : QName)
  | text (raw : List Char)
  | cdata (raw : List Char)
  | comment
  | instruction
deriving Repr

/-- Takes a comment off a text, behind its opening mark. -/
def takeComment (cs : List Char) : Option (Markup × List Char) := do
  let (body, rest) ← Pattern.cut "-->".toList cs
  -- two hyphens belong to the closing mark alone
  if (Pattern.cut ['-', '-'] body).isSome || body.getLast? == some '-' then none
  else some (.comment, rest)

/-- Takes a processing instruction off a text, behind its opening mark. One for the target `xml`
with a space behind it is the declaration of a document, and not allowed inside. -/
def takeInstruction (cs : List Char) : Option (Markup × List Char) :=
  if (afterWord "xml " cs).isSome then none
  else do
    let (_, rest) ← takeName cs
    let (_, rest) ← Pattern.cut "?>".toList (skipSpace rest)
    some (.instruction, rest)

/-- Takes a start tag off a text, behind its angle bracket. -/
def takeStartTag (cs : List Char) : Option (Markup × List Char) := do
  let (name, rest) ← takeQName cs
  let (attributes, rest) ← collect attributeStep rest
  match afterWord "/>" rest with
  | some rest => some (.lone name attributes, rest)
  | none => (afterWord ">" rest).map fun rest => (.opening name attributes, rest)

/-- Takes an end tag off a text, behind its angle bracket and slash. -/
def takeEndTag (cs : List Char) : Option (Markup × List Char) := do
  let (name, rest) ← takeQName cs
  let rest ← afterWord ">" (skipSpace rest)
  some (.closing name, rest)

/-- Takes the markup off a text that an angle bracket begins, behind that bracket. -/
def takeTagged (cs : List Char) : Option (Markup × List Char) :=
  match afterWord "!--" cs, afterWord "![CDATA[" cs, afterWord "?" cs, afterWord "/" cs with
  | some rest, _, _, _ => takeComment rest
  | _, some rest, _, _ => (Pattern.cut "]]>".toList rest).map fun (raw, rest) => (.cdata raw, rest)
  | _, _, some rest, _ => takeInstruction rest
  | _, _, _, some rest => takeEndTag rest
  | _, _, _, _ => if cs.head? = some '!' then none else takeStartTag cs

/-- The next piece of markup. A text goes on to the next angle bracket and must not contain the
mark that closes a character data section. -/
def markupStep (cs : List Char) : Option (Step Markup) :=
  match cs with
  | [] => some (.done [])
  | c :: rest =>
    if c = '<' then (takeTagged rest).map fun (piece, after) => .more piece after
    else
      let raw := cs.takeWhile (· ≠ '<')
      if (Pattern.cut "]]>".toList raw).isSome then none
      else some (.more (.text raw) (cs.dropWhile (· ≠ '<')))

/-- The text behind the XML declaration that a document may begin with: a version, then perhaps an
encoding, then perhaps whether the document stands alone. -/
def skipDeclaration (cs : List Char) : Option (List Char) :=
  match afterWord "<?xml " cs with
  | none => some cs
  | some rest => do
    let gap (cs : List Char) : Option (List Char) :=
      if cs.head?.any isXmlSpace then some (skipSpace cs)
      else if (afterWord "?>" cs).isSome then some cs
      else none
    let attributeNamed (word : String) (cs : List Char) : Option (List Char) :=
      if (afterWord word cs).isSome then (takeAttribute cs).map Prod.snd else none
    let rest ← attributeNamed "version" (skipSpace rest)
    let rest ← gap rest
    let rest ← if (afterWord "encoding" rest).isSome then
      (attributeNamed "encoding" rest).bind gap else some rest
    let rest ← if (afterWord "standalone" rest).isSome then
      attributeNamed "standalone" rest else some rest
    afterWord "?>" (skipSpace rest)

/-- The markup of a document, behind its byte order mark and declaration. -/
def scan (cs : List Char) : Option (List Markup) := do
  -- a forbidden character spoils the document wherever it stands
  if !cs.all isXmlChar then none
  else
    let body := if cs.head? = some '\uFEFF' then cs.drop 1 else cs
    let (pieces, _) ← collect markupStep (← skipDeclaration body)
    some pieces

end WitnessReplay.Xml
