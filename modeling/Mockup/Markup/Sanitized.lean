import Mockup.Markup.AllowList
import Mockup.Markup.Element
import Mockup.Text.Offset
import Mockup.Xml.Reader

/-!
# Sanitized markup

A mockup is read in one walk over a document, which builds the kept elements, counts them, and stops
at the first thing that refuses the document: forbidden content anywhere, nesting that is too deep,
or too many elements. The elements of a stripped part are looked at for forbidden content, but they
count neither for the depth nor for the number of elements.
-/

namespace Mockup.Markup

/-- How large a mockup may be. -/
structure Limits where
  /-- The largest number of bytes of its text. -/
  maxMarkupBytes : Nat := 1024 * 1024
  /-- The largest depth of its elements; the outermost one has depth one. -/
  maxDepth : Nat := 64
  /-- The largest number of its elements. -/
  maxElements : Nat := 10000
  deriving DecidableEq, Repr, Inhabited

/-- What a limit is on. -/
inductive Measure where
  | bytes
  | depth
  | elements
  deriving DecidableEq, Repr

/-- The name of a measure. -/
def Measure.name : Measure → String
  | .bytes => "markup bytes"
  | .depth => "nesting depth"
  | .elements => "element count"

/-- Why a text gives no mockup. -/
inductive Refusal where
  /-- The text is blank. -/
  | empty
  /-- The text is no XML document. -/
  | malformed (e : Xml.Error)
  /-- The document holds something that is not allowed. -/
  | rejected (r : Rejection)
  /-- The document is too large. -/
  | tooLarge (m : Measure) (value max : Nat)
  deriving DecidableEq, Repr

/-! ### Stripped parts -/

/-- Looks for forbidden content in the attributes of an element. -/
def inspectAttributes (owner : String) : List (String × String) → Except Rejection Unit
  | [] => .ok ()
  | (name, value) :: rest => do
    let _ ← checkAttribute owner name value
    inspectAttributes owner rest

mutual

/-- Looks for forbidden content in a stripped part. -/
def inspectStripped : Xml.Node → Except Rejection Unit
  | .element name attributes children => do
    let _ ← checkElement name
    inspectAttributes name attributes
    inspectAllStripped children
  | _ => .ok ()

/-- Looks for forbidden content in the children of a stripped element. -/
def inspectAllStripped : List Xml.Node → Except Rejection Unit
  | [] => .ok ()
  | n :: ns => do
    inspectStripped n
    inspectAllStripped ns

end

/-! ### Kept parts -/

/-- A rejection as a refusal. -/
def refuse {α : Type} : Except Rejection α → Except Refusal α :=
  Except.mapError .rejected

/-- The attributes of an element that are kept, in order. -/
def convertAttributes (owner : String) :
    List (String × String) → Except Rejection (List (String × String))
  | [] => .ok []
  | (name, value) :: rest => do
    let verdict ← checkAttribute owner name value
    let kept ← convertAttributes owner rest
    match verdict with
    | .keep => return (name, value) :: kept
    | .strip => return kept

/-- The kept element at a depth, after `count` kept elements, and their new number. `inside` reads
what is in the element, after a number of kept elements. -/
def convertElement (limits : Limits) (depth count : Nat) (name : String)
    (attributes : List (String × String))
    (inside : Nat → Except Refusal (List (Content Element) × Nat)) :
    Except Refusal (Element × Nat) :=
  if limits.maxDepth < depth then .error (.tooLarge .depth depth limits.maxDepth)
  else if limits.maxElements < count + 1 then
    .error (.tooLarge .elements (count + 1) limits.maxElements)
  else do
    let attributes ← refuse (convertAttributes name attributes)
    let (children, count) ← inside (count + 1)
    return (⟨name, attributes, children⟩, count)

mutual

/-- What is kept of a node in a kept element, at a depth: an element that is not stripped or a text
that is not blank. -/
def convertNode (limits : Limits) (depth count : Nat) :
    Xml.Node → Except Refusal (Option (Content Element) × Nat)
  | .element name attributes children => do
    let verdict ← refuse (checkElement name)
    match verdict with
    | .keep =>
      let (e, count) ← convertElement limits depth count name attributes fun count =>
        convertChildren limits (depth + 1) count children
      return (some (.node e), count)
    | .strip =>
      refuse (inspectStripped (.element name attributes children))
      return (none, count)
  | .text s => return (if Text.isAllBlank s then none else some (.text s), count)
  | .comment _ | .instruction _ => return (none, count)

/-- What is kept of the children of an element, in order. -/
def convertChildren (limits : Limits) (depth count : Nat) :
    List Xml.Node → Except Refusal (List (Content Element) × Nat)
  | [] => return ([], count)
  | n :: ns => do
    let (c, count) ← convertNode limits depth count n
    let (cs, count) ← convertChildren limits depth count ns
    return (c.toList ++ cs, count)

end

/-- The mockup that a document holds. -/
def Element.ofDocument (limits : Limits) (d : Xml.Document) : Except Refusal Element := do
  let verdict ← refuse (checkElement d.name)
  match verdict with
  | .strip => .error (.rejected (.root d.name))
  | .keep =>
    let (e, _) ← convertElement limits 1 0 d.name d.attributes fun count =>
      convertChildren limits 2 count d.children
    return e

/-- The mockup that a text holds. -/
def Element.read (limits : Limits) (text : String) : Except Refusal Element :=
  let bytes := Text.byteLength text.toList
  if limits.maxMarkupBytes < bytes then .error (.tooLarge .bytes bytes limits.maxMarkupBytes)
  else if Text.isAllBlank text then .error .empty
  else do
    let d ← (Xml.Document.read text).mapError .malformed
    Element.ofDocument limits d

end Mockup.Markup
