import Mockup.Jsx.Escape

/-!
# Views

A view is what a component shows, ready to be written: elements with attributes, and texts.
`View.chars` writes every element on lines of its own, except that a single text stands between
its tags.
-/

namespace Mockup.Jsx

/-- The value of an attribute. -/
inductive View.Value where
  /-- The attribute stands alone. -/
  | flag
  /-- A text. -/
  | text (s : String)
  /-- An expression, which is written in braces. -/
  | code (s : String)
  deriving DecidableEq, Repr

/-- An attribute. -/
structure View.Attribute where
  /-- The name. -/
  name : String
  /-- The value. -/
  value : View.Value
  deriving DecidableEq, Repr

/-- An element or a text. -/
inductive View where
  | element (tag : String) (attributes : List View.Attribute) (children : List View)
  | text (s : String)
  deriving Repr, Inhabited

namespace View

/-- An attribute with a text. -/
def Attribute.ofText (name s : String) : Attribute := ⟨name, .text s⟩

/-- The attribute for a class text, unless that is blank. -/
def classAttribute (classes : String) : List Attribute :=
  if Text.isAllBlank classes then [] else [.ofText "className" classes]

/-- The written form of an attribute. -/
def Attribute.chars (a : Attribute) : List Char :=
  match a.value with
  | .flag => a.name.toList
  | .text s => a.name.toList ++ '=' :: literal s.toList
  | .code s => a.name.toList ++ '=' :: '\x7b' :: (s.toList ++ ['\x7d'])

/-- The tags of elements that are never written with a closing tag. -/
def voidTags : List String := ["img", "input", "br", "hr"]

/-- The inside of an opening tag. -/
def opening (tag : String) (attributes : List Attribute) : List Char :=
  tag.toList ++ attributes.flatMap fun a => ' ' :: a.chars

/-- An opening tag. -/
def openTag (tag : String) (attributes : List Attribute) : List Char :=
  '<' :: (opening tag attributes ++ ['>'])

/-- A closing tag. -/
def closeTag (tag : String) : List Char :=
  '<' :: '/' :: (tag.toList ++ ['>'])

/-- The blanks that open a line. -/
def indentation (depth : Nat) : List Char :=
  List.replicate (2 * depth) ' '

mutual

/-- A view at a depth, with the line breaks at its end. -/
def chars (depth : Nat) : View → List Char
  | .text s => indentation depth ++ escaped s.toList ++ ['\n']
  | .element tag attributes [] =>
    indentation depth ++
      (if voidTags.contains tag then '<' :: (opening tag attributes ++ " />".toList)
        else openTag tag attributes ++ closeTag tag) ++ ['\n']
  | .element tag attributes [.text s] =>
    indentation depth ++ openTag tag attributes ++ escaped s.toList ++ closeTag tag ++ ['\n']
  | .element tag attributes children =>
    indentation depth ++ openTag tag attributes ++ '\n' :: charsOfAll (depth + 1) children ++
      indentation depth ++ closeTag tag ++ ['\n']

/-- Several views at one depth. -/
def charsOfAll (depth : Nat) : List View → List Char
  | [] => []
  | v :: vs => chars depth v ++ charsOfAll depth vs

end

end View

end Mockup.Jsx
