import Mockup.Text.Split
import Mockup.Xml.Document
import Mockup.Xml.Namespace

/-!
# Reading XML documents

`Document.read` reads a whole text: a declaration, comments and processing instructions, one
element, and comments and processing instructions again. Document type declarations are refused. The
content of elements is read in one pass with the open elements on a stack; a text that ends while
elements are open is an error of the document as a whole.
-/

namespace Mockup.Xml

/-! ### Comments, instructions and the declaration -/

/-- Reads a comment from its opening mark on. -/
def readComment (cs : List Char) : Reading (String × List Char) := do
  let (text, rest) ← spanBefore "-->".toList (cs.drop 4)
  let rest ← expectText "-->" rest
  if Text.contains "--".toList text || text.getLast? == some '-' then
    failAt cs .hyphensInComment
  else return (String.ofList text, rest)

/-- Reads a processing instruction from its opening mark on: its target. -/
def readInstruction (cs : List Char) : Reading (String × List Char) := do
  if startsWith "<?xml " cs then failAt cs .lateDeclaration
  else
    let (target, rest) ← simpleName (cs.drop 2)
    let (_, rest) ← spanBefore "?>".toList (skipSpaces rest)
    let rest ← expectText "?>" rest
    return (target, rest)

/-- Reads an equals sign with blanks around it. -/
def equalsSign (cs : List Char) : Reading (List Char) := do
  let rest ← expectChar '=' (skipSpaces cs)
  return skipSpaces rest

/-- Reads an opening quote: the quote itself. -/
def openingQuote : List Char → Reading (Char × List Char)
  | [] => failAt [] .endOfText
  | c :: cs =>
    if c = '"' ∨ c = '\'' then .ok (c, cs) else failAt (c :: cs) (.expectedQuote (firstByte c))

/-- Reads an attribute: its name, its value as written, and the text after the value's end. -/
def readAttribute (cs : List Char) : Reading (QualifiedName × List Char × List Char) := do
  let (name, rest) ← qualifiedName cs
  let rest ← equalsSign rest
  let (quote, rest) ← openingQuote rest
  let (value, rest) ← spanChars (fun c => c != quote && c != '<') rest
  let rest ← expectChar quote rest
  return (name, value, rest)

/-- Reads the blanks that are due between the parts of a declaration. -/
def declarationSpace (cs : List Char) : Reading (List Char) :=
  match cs with
  | [] => .ok []
  | c :: _ =>
    if isSpace c || startsWith "?>" cs then .ok (skipSpaces cs)
    else failAt cs (.expectedSpace (firstByte c))

/-- Reads the XML declaration. Its values are not checked. -/
def readDeclaration (cs : List Char) : Reading (List Char) := do
  let rest ← declarationSpace (cs.drop 5)
  if !startsWith "version" rest then failAt rest (.expectedText "version")
  let (_, _, rest) ← readAttribute rest
  let rest ← declarationSpace rest
  let rest ← if startsWith "encoding" rest then do
      let (_, _, rest) ← readAttribute rest
      declarationSpace rest
    else pure rest
  let rest ← if startsWith "standalone" rest then do
      let (_, _, rest) ← readAttribute rest
      pure rest
    else pure rest
  expectText "?>" (skipSpaces rest)

/-- Reads blanks, comments and processing instructions. -/
def miscellany (cs : List Char) : Reading (List Char) := do
  let step (_ : Unit) (cs : List Char) : Reading (Text.Progress Unit) := do
    let cs := skipSpaces cs
    if startsWith "<!--" cs then
      let (_, rest) ← readComment cs
      return ⟨(), rest, true⟩
    else if startsWith "<?" cs then
      let (_, rest) ← readInstruction cs
      return ⟨(), rest, true⟩
    else return ⟨(), cs, false⟩
  let (_, rest) ← Text.repeatRead step () cs
  return rest

/-! ### Tags -/

/-- How a tag ends. -/
inductive TagEnd where
  /-- With `>`: content follows. -/
  | opened
  /-- With `/>`: there is no content. -/
  | closed
  /-- With the end of the text. -/
  | cut
  deriving DecidableEq, Repr

/-- The attributes of a tag that is being read, and its end once it is reached. -/
structure TagState where
  /-- What was read so far. -/
  attributes : TagAttributes
  /-- How the tag ends. -/
  ending : TagEnd

/-- Reads one attribute of a tag, or its end. -/
def tagStep (s : TagState) (cs : List Char) : Reading (Text.Progress TagState) :=
  match cs with
  | [] => .ok ⟨s, [], false⟩
  | c :: _ =>
    match skipSpaces cs with
    | [] => failAt [] .endOfText
    | '/' :: rest => do
      let rest ← expectChar '>' rest
      return ⟨{ s with ending := .closed }, rest, false⟩
    | '>' :: rest => .ok ⟨{ s with ending := .opened }, rest, false⟩
    | d :: rest => do
      if !isSpace c then failAt (d :: rest) (.expectedSpace (firstByte d))
      let (name, value, after) ← readAttribute (d :: rest)
      -- The closing quote stands between the value and the text after it.
      let value ← attributeValue (after.length + 1) value
      let attributes ← s.attributes.add ⟨name, value, (d :: rest).length⟩
      return ⟨{ s with attributes }, after, true⟩

/-- An opening tag. -/
structure Tag where
  /-- The name of the element. -/
  name : QualifiedName
  /-- The length of the text from the name on. -/
  unread : Nat
  /-- The declarations and attributes. -/
  attributes : TagAttributes
  /-- How the tag ends. -/
  ending : TagEnd

/-- Reads an opening tag. -/
def openingTag (cs : List Char) : Reading (Tag × List Char) := do
  let inner := cs.drop 1
  let (name, rest) ← qualifiedName inner
  if name.qualifier = "xmlns" then failAt inner .reservedPrefix
  let (s, rest) ← Text.repeatRead tagStep ⟨⟨[], []⟩, .cut⟩ rest
  return (⟨name, inner.length, s.attributes, s.ending⟩, rest)

/-! ### Content -/

/-- An element whose closing tag is still due. -/
structure OpenElement where
  /-- Its name. -/
  name : QualifiedName
  /-- Its attributes under their local names. -/
  attributes : List (String × String)
  /-- The prefixes in force inside it. -/
  scope : Scope
  /-- Its children so far, the last one first. -/
  children : List Node

/-- The element as a document of its own. -/
def OpenElement.close (e : OpenElement) : Document :=
  ⟨e.name.name, e.attributes, e.children.reverse⟩

/-- Adds a child. -/
def OpenElement.addChild (e : OpenElement) (n : Node) : OpenElement :=
  { e with children := n :: e.children }

/-- Adds text: it continues a run of text that stands last. -/
def OpenElement.addText (e : OpenElement) (s : String) : OpenElement :=
  match e.children with
  | .text t :: rest => { e with children := .text (t ++ s) :: rest }
  | _ => e.addChild (.text s)

/-- Where the reading of the outermost element stands. -/
inductive Progress where
  /-- Inside `inner`, which stands inside the elements of `outer`, the nearest one first. -/
  | inside (inner : OpenElement) (outer : List OpenElement)
  /-- After its end. -/
  | done (d : Document)
  /-- The text ended inside its opening tag. -/
  | cut

/-- A complete element was read inside the elements of `outer`. -/
def Progress.closed (d : Document) : List OpenElement → Progress
  | [] => .done d
  | e :: outer => .inside (e.addChild d.root) outer

/-- Takes in an opening tag inside the elements of `outer`. -/
def Progress.opened (tag : Tag) (outer : List OpenElement) : Reading Progress := do
  let around : Scope := match outer with
    | [] => []
    | e :: _ => e.scope
  let scope := tag.attributes.declared ++ around
  -- A tag that is cut off makes no element, and its attributes are not checked.
  if tag.ending = .cut then
    return match outer with
      | [] => .cut
      | e :: outer => .inside e outer
  checkAttributes scope [] tag.attributes.attributes
  checkElementName scope tag.name tag.unread
  let e : OpenElement :=
    { name := tag.name
      attributes := tag.attributes.attributes.map fun a => (a.name.name, a.value)
      scope
      children := [] }
  return if tag.ending = .closed then .closed e.close outer else .inside e outer

/-- Reads a closing tag: its name. -/
def closingTag (cs : List Char) : Reading (QualifiedName × List Char) := do
  let (name, rest) ← qualifiedName (cs.drop 2)
  let rest ← expectChar '>' (skipSpaces rest)
  return (name, rest)

/-- Reads one part of the content of the innermost open element. -/
def contentStep (p : Progress) (cs : List Char) : Reading (Text.Progress Progress) :=
  match p with
  | .inside e outer =>
    match cs with
    | [] => .ok ⟨p, [], false⟩
    | ['<'] => failAt cs .unknownToken
    | '<' :: '!' :: _ =>
      if startsWith "<!--" cs then do
        let (text, rest) ← readComment cs
        return ⟨.inside (e.addChild (.comment text)) outer, rest, true⟩
      else if startsWith "<![CDATA[" cs then do
        let (text, rest) ← spanBefore "]]>".toList (cs.drop 9)
        let rest ← expectText "]]>" rest
        return ⟨.inside (e.addText (sectionData text)) outer, rest, true⟩
      else failAt cs .unknownToken
    | '<' :: '?' :: _ => do
      let (target, rest) ← readInstruction cs
      return ⟨.inside (e.addChild (.instruction target)) outer, rest, true⟩
    | '<' :: '/' :: _ => do
      let (name, rest) ← closingTag cs
      if name ≠ e.name then failAt cs (.wrongClosingTag e.name.text name.text)
      return ⟨.closed e.close outer, rest, true⟩
    | '<' :: _ => do
      let (tag, rest) ← openingTag cs
      let p ← Progress.opened tag (e :: outer)
      return ⟨p, rest, true⟩
    | _ => do
      let (text, rest) ← spanChars (· != '<') cs
      -- The end mark of a section counts before references, and at the end of the run.
      if Text.contains "]]>".toList text then failAt rest .sectionEndInText
      let text ← characterData rest.length text
      return ⟨.inside (e.addText text) outer, rest, true⟩
  | p => .ok ⟨p, cs, false⟩

/-- Reads the outermost element, if the text begins with one. -/
def outermost (cs : List Char) : Reading (Progress × List Char) := do
  if startsWith "<" cs then
    let (tag, rest) ← openingTag cs
    let p ← Progress.opened tag []
    Text.repeatRead contentStep p rest
  else return (.cut, cs)

/-- Reads a document. -/
def Document.readFrom (cs : List Char) : Reading Document := do
  let start := if startsWith "\ufeff" cs then cs.drop 1 else cs
  let rest ← if startsWith "<?xml " start then readDeclaration start else pure start
  let rest ← miscellany rest
  if startsWith "<!DOCTYPE" rest then failAt rest .doctype
  let (p, rest) ← outermost rest
  let rest ← miscellany rest
  if !rest.isEmpty then failAt rest .unknownToken
  match p with
  | .done d => return d
  | .inside .. => failAt rest .rootNotClosed
  | .cut => failAt rest .noRoot

/-- Reads a whole text as a document. -/
def Document.read (text : String) : Except Error Document :=
  (Document.readFrom text.toList).mapError fun f => f.inText text.toList

end Mockup.Xml
