import Mockup.Json.Quoted
import Mockup.Text.Blank
import Mockup.Text.Offset

/-!
# Elements of a component file

The elements that a component file holds, each with the elements inside it and with the places of
its parts as byte offsets. `Element.entries` lists them in document order with their relations as
positions in that list.
-/

namespace Mockup.Jsx

/-- The value of an attribute as it is written. -/
inductive Value where
  /-- The text between quotes. -/
  | quoted (s : List Char)
  /-- The text between braces. -/
  | braced (s : List Char)
  deriving DecidableEq, Repr

/-- An attribute of an element. -/
structure Attribute where
  /-- The name. -/
  name : String
  /-- The place of the name. -/
  start : Nat
  /-- The place after the attribute. -/
  stop : Nat
  /-- The value, if there is one. -/
  value : Option Value
  deriving DecidableEq, Repr

/-- An element with all that is inside it. -/
structure Element where
  /-- The tag, which may be empty. -/
  tag : String
  /-- The place of the opening tag. -/
  start : Nat
  /-- The place after the name in the opening tag. -/
  nameEnd : Nat
  /-- The place after the opening tag. -/
  openEnd : Nat
  /-- The place after the element. -/
  stop : Nat
  /-- The attributes, in order. -/
  attributes : List Attribute
  /-- Whether the opening tag also closes the element. -/
  selfClosing : Bool
  /-- The elements inside it, also those in its attributes. -/
  children : List Element
  deriving Repr, Inhabited

/-! ### Values -/

/-- The text between two equal marks, the first of which was passed, if nothing in it can be
anything but itself. -/
def plainText? (mark : Char) (isSpecial : List Char → Bool) (rest : List Char) :
    Option (List Char) :=
  let inner := rest.dropLast
  if rest.getLast? = some mark ∧ !isSpecial inner then some inner else none

/-- The text that an expression stands for, if it is one literal text and nothing else. -/
def loneText? (expression : List Char) : Option (List Char) :=
  match Text.trimmed expression with
  | '"' :: rest =>
    match Json.unquote? rest with
    | some (s, []) => some s
    | _ => none
  | '\'' :: rest => plainText? '\'' (fun cs => cs.any fun c => c == '\'' || c == '\\') rest
  | '\x60' :: rest =>
    plainText? '\x60' (fun cs =>
      (cs.any fun c => c == '\x60' || c == '\\') || Text.contains ['$', '\x7b'] cs) rest
  | _ => none

/-- The text of a value, if it can be told without running anything. -/
def Value.text? : Value → Option (List Char)
  | .quoted s => some s
  | .braced s => loneText? s

namespace Element

/-- The first attribute with a name. -/
def attribute? (e : Element) (name : String) : Option Attribute :=
  e.attributes.find? fun a => a.name == name

/-- Where a new attribute goes: after the last one, or after the name. -/
def insertPoint (e : Element) : Nat :=
  match e.attributes.getLast? with
  | some a => a.stop
  | none => e.nameEnd

/-- The text of an element in a source. -/
def textIn (source : List Char) (e : Element) : List Char :=
  Text.slice e.start e.stop source

/-! ### Document order -/

mutual

/-- An element and all inside it, each before what it holds. -/
def walk : Element → List Element
  | ⟨tag, start, nameEnd, openEnd, stop, attributes, selfClosing, children⟩ =>
    ⟨tag, start, nameEnd, openEnd, stop, attributes, selfClosing, children⟩ :: walkAll children

/-- Several elements and all inside them. -/
def walkAll : List Element → List Element
  | [] => []
  | e :: es => walk e ++ walkAll es

end

/-- The number of elements in an element, itself included. -/
def size (e : Element) : Nat :=
  e.walk.length

/-- An element in the list of all elements. -/
structure Entry where
  /-- The element. -/
  element : Element
  /-- The position of the element around it. -/
  parent : Option Nat
  /-- The positions of the elements in it. -/
  children : List Nat
  deriving Repr

/-- The positions of elements that follow one another from a position on. -/
def positions (first : Nat) : List Element → List Nat
  | [] => []
  | e :: es => first :: positions (first + e.size) es

mutual

/-- The entries of an element at a position and of all inside it. -/
def entries (parent : Option Nat) (index : Nat) : Element → List Entry
  | ⟨tag, start, nameEnd, openEnd, stop, attributes, selfClosing, children⟩ =>
    ⟨⟨tag, start, nameEnd, openEnd, stop, attributes, selfClosing, children⟩, parent,
      positions (index + 1) children⟩ :: entriesOfAll (some index) (index + 1) children

/-- The entries of several elements from a position on and of all inside them. -/
def entriesOfAll (parent : Option Nat) (index : Nat) : List Element → List Entry
  | [] => []
  | e :: es => entries parent index e ++ entriesOfAll parent (index + e.size) es

end

/-! ### Finding an element -/

mutual

/-- The innermost element that is reached from an element by going on to the first one inside that
satisfies `p`. -/
def narrow (p : Element → Bool) : Element → Element
  | ⟨tag, start, nameEnd, openEnd, stop, attributes, selfClosing, children⟩ =>
    (narrowIn p children).getD
      ⟨tag, start, nameEnd, openEnd, stop, attributes, selfClosing, children⟩

/-- The first of several elements that satisfies `p`, narrowed. -/
def narrowIn (p : Element → Bool) : List Element → Option Element
  | [] => none
  | e :: es => if p e then some (narrow p e) else narrowIn p es

end

/-- Whether the text of an element holds a locator. -/
def holds (source locator : List Char) (e : Element) : Bool :=
  Text.contains locator (e.textIn source)

/-- The element that a locator finds: the first whose text holds it, narrowed to the innermost one
that still does. -/
def find? (source locator : List Char) (elements : List Element) : Option Element :=
  ((walkAll elements).find? (holds source locator)).map (narrow (holds source locator))

end Element

end Mockup.Jsx
