import Mockup.Content
import Mockup.Json.Decode
import Mockup.Text.Blank

/-!
# Markup elements

The tree of a mockup after everything that is not drawn was left out: elements with their attributes
in document order, and their children, which are elements and texts.
-/

namespace Mockup.Markup

/-- An element of a mockup. -/
structure Element where
  /-- The local name. -/
  name : String
  /-- The attributes in document order. -/
  attributes : List (String × String)
  /-- The children in document order. -/
  children : List (Content Element)
  deriving Repr, Inhabited

namespace Element

/-- The value of the first attribute with this name. -/
def attribute? (e : Element) (name : String) : Option String :=
  (e.attributes.find? fun a => a.1 == name).map (·.2)

/-- The child elements in order. -/
def elements (e : Element) : List Element :=
  Content.nodes e.children

mutual

/-- The elements below an element, each before the ones that it holds. -/
def descendants : Element → List Element
  | ⟨_, _, children⟩ => descendantsIn children

/-- The elements in a list of children, each before the ones that it holds. -/
def descendantsIn : List (Content Element) → List Element
  | [] => []
  | .text _ :: cs => descendantsIn cs
  | .node e :: cs => e :: (descendants e ++ descendantsIn cs)

end

/-- The element and all below it. -/
def walk (e : Element) : List Element :=
  e :: e.descendants

/-- The first text child that is not blank, without the blanks around it. -/
def firstText (e : Element) : Option String :=
  ((Content.texts e.children).find? fun s => !Text.isAllBlank s).map Text.trim

mutual

/-- The texts of an element and all below it, in order. -/
def allTexts : Element → List String
  | ⟨_, _, children⟩ => allTextsIn children

/-- The texts in a list of children and all below them, in order. -/
def allTextsIn : List (Content Element) → List String
  | [] => []
  | .text s :: cs => s :: allTextsIn cs
  | .node e :: cs => allTexts e ++ allTextsIn cs

end

/-- The texts of an element and all below it as one text. Texts do not join into one word, and a
run of blanks counts as one space. -/
def textContent (e : Element) : String :=
  Text.collapsed (String.join (e.allTexts.map (· ++ " ")))

@[simp]
theorem descendantsIn_nil : descendantsIn [] = [] := rfl

@[simp]
theorem descendantsIn_text (s : String) (cs : List (Content Element)) :
    descendantsIn (.text s :: cs) = descendantsIn cs := rfl

@[simp]
theorem descendantsIn_node (e : Element) (cs : List (Content Element)) :
    descendantsIn (.node e :: cs) = e :: (descendants e ++ descendantsIn cs) := rfl

/-- The elements below an element are its children, each followed by the elements below it. -/
theorem descendants_eq (e : Element) :
    e.descendants = e.elements.flatMap fun c => c :: c.descendants := by
  obtain ⟨_, _, children⟩ := e
  simp only [descendants, elements]
  induction children with
  | nil => rfl
  | cons c cs ih => cases c <;> simp [ih]

/-! ### Interchange -/

/-- An attribute as a pair. -/
def encodeAttribute (a : String × String) : Json :=
  .array [.string a.1, .string a.2]

mutual

/-- An element as an object. -/
def encode : Element → Json
  | ⟨name, attributes, children⟩ =>
    .object [("name", .string name), ("attributes", .array (attributes.map encodeAttribute)),
      ("children", .array (encodeChildren children))]

/-- Each child as an object with one field, which says of what kind it is. -/
def encodeChildren : List (Content Element) → List Json
  | [] => []
  | .text s :: cs => .object [("Text", .string s)] :: encodeChildren cs
  | .node e :: cs => .object [("Element", encode e)] :: encodeChildren cs

end

/-- A pair of strings. -/
def decodeAttribute (j : Json) : Decoded (String × String) :=
  match j with
  | .array [] => .error (.wrongLength 0 "a tuple of size 2")
  | .array [a] => do
    let _ ← a.asString
    .error (.wrongLength 1 "a tuple of size 2")
  | .array [a, b] => do
    let a ← a.asString
    let b ← b.asString
    return (a, b)
  | .array (a :: b :: more) => do
    let _ ← a.asString
    let _ ← b.asString
    .error (.wrongLength (more.length + 2) "fewer elements in array")
  | j => .error (.wrongKind j "a tuple of size 2")

/-- The kinds of children by their names. -/
def childKinds : List String := ["Element", "Text"]

/-- A child from an object with one field, where `element` decodes an element. -/
def decodeChild (j : Json) (element : (k : Json) → sizeOf k < sizeOf j → Decoded Element) :
    Decoded (Content Element) :=
  match j, element with
  | .object [("Text", k)], _ => k.asString.map .text
  | .object [("Element", k)], element =>
    have hsize : sizeOf k < sizeOf (Json.object [("Element", k)]) := by
      simp only [Json.object.sizeOf_spec, List.cons.sizeOf_spec, Prod.mk.sizeOf_spec]
      omega
    (element k hsize).map .node
  | .object [(kind, _)], _ => .error (.unknownVariant kind childKinds)
  | .object _, _ => .error .notOneField
  | .string s, _ =>
    .error (if childKinds.contains s then .bareVariant else .unknownVariant s childKinds)
  | j, _ => .error (.wrongKind j "string or map")

/-- An element from an object or a sequence. -/
def decode (j : Json) : Decoded Element :=
  Json.asStruct .direct "MarkupNode" j <|
    Element.mk <$> .required "name" Json.asString <*>
      .required "attributes" (fun k => k.asList fun a _ => decodeAttribute a) <*>
      .field "children" none fun k _ => k.asList fun c _ => decodeChild c fun e _ => decode e
termination_by sizeOf j

end Element

end Mockup.Markup
