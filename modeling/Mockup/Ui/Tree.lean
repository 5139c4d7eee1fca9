import Mockup.Content
import Mockup.Ui.Style

/-!
# User-interface trees

What a mockup means: texts, images, icons, buttons, lists, forms, and frames that hold them. A tree
is a frame without a tag of its own. `Tree.walk` lists all nodes below the root.
-/

namespace Mockup.Ui

/-- What a text is in the structure of a page. -/
inductive TextRole where
  | h1
  | h2
  | h3
  | paragraph
  | span
  deriving DecidableEq, Repr, Inhabited

/-- The control of a form field. -/
inductive FieldComponent where
  | input
  | textarea
  | select
  | checkbox
  | switch
  | button
  deriving DecidableEq, Repr

/-- A field of a form. -/
structure Field where
  /-- The name under which its value is sent. -/
  name : String
  /-- The text beside it; the name stands in for it. -/
  label : Option String := none
  /-- The control. -/
  component : FieldComponent
  /-- Whether it must be filled in. -/
  required : Option Bool := none
  /-- The values to choose from. -/
  options : Option (List String) := none
  /-- The text shown while it is empty. -/
  placeholder : Option String := none
  deriving DecidableEq, Repr

/-- The text beside a field. -/
def Field.caption (f : Field) : String :=
  f.label.getD f.name

/-- Where a form sends its data. -/
inductive SubmitAction where
  /-- To an address. -/
  | httpPost (url : String)
  /-- To an operation of a described service. -/
  | openApi (specUrl operationId : String)
  /-- Into a table of a hosted database. -/
  | supabaseInsert (table : String)
  /-- To a query endpoint. -/
  | graphql (endpoint document : String)
  deriving DecidableEq, Repr

/-- What a form does. -/
structure FormActions where
  /-- What happens when it is sent. -/
  onSubmit : Option SubmitAction := none
  deriving DecidableEq, Repr

/-- A node of a user interface. -/
inductive Node where
  | text (role : TextRole) (content : String) (style : Style)
  | image (src alt : Option String) (style : Style)
  | icon (name : String) (style : Style)
  | frame (layout : Layout) (style : Style) (children : List Node)
  | form (name : String) (fields : List Field) (actions : Option FormActions) (style : Style)
  | list (items : List (Content Node)) (style : Style)
  | button (label : String) (style : Style)
  deriving Repr, Inhabited

/-- A user interface: a frame around its nodes. -/
structure Tree where
  /-- The arrangement of the frame. -/
  layout : Layout := {}
  /-- The look of the frame. -/
  style : Style := {}
  /-- The nodes in the frame. -/
  children : List Node
  deriving Repr, Inhabited

namespace TextRole

/-- The role of a text with a size in pixels. -/
def ofFontSize (size : Float) : TextRole :=
  if size ≥ 32.0 then .h1
  else if size ≥ 24.0 then .h2
  else if size ≥ 18.0 then .h3
  else .paragraph

/-- The name of a role, which is also its tag. -/
def name : TextRole → String
  | .h1 => "h1"
  | .h2 => "h2"
  | .h3 => "h3"
  | .paragraph => "p"
  | .span => "span"

/-- The names of the roles. -/
def names : List (String × TextRole) :=
  [("h1", .h1), ("h2", .h2), ("h3", .h3), ("p", .paragraph), ("span", .span)]

/-- Reading the name of a role gives back the role. -/
theorem variantOf_name (r : TextRole) : Json.variantOf names r.name = .ok r := by
  cases r <;> rfl

end TextRole

namespace Node

/-- The name of the kind of a node. -/
def kind : Node → String
  | .text .. => "Text"
  | .image .. => "Image"
  | .icon .. => "Icon"
  | .frame .. => "Frame"
  | .form .. => "Form"
  | .list .. => "List"
  | .button .. => "Button"

/-- The look of a node. -/
def style : Node → Style
  | .text _ _ s | .image _ _ s | .icon _ s | .frame _ s _ | .form _ _ _ s | .list _ s
  | .button _ s => s

/-- Whether a node is a form. -/
def isForm : Node → Bool
  | .form .. => true
  | _ => false

mutual

/-- A node and all below it, each before the ones that it holds. -/
def walk : Node → List Node
  | .frame layout style children => .frame layout style children :: walkAll children
  | .list items style => .list items style :: walkItems items
  | n => [n]

/-- The nodes of a list and all below them. -/
def walkAll : List Node → List Node
  | [] => []
  | n :: ns => walk n ++ walkAll ns

/-- The nodes among the items of a list and all below them. -/
def walkItems : List (Content Node) → List Node
  | [] => []
  | .text _ :: cs => walkItems cs
  | .node n :: cs => walk n ++ walkItems cs

end

end Node

namespace Tree

/-- The nodes below the root, each before the ones that it holds. -/
def walk (t : Tree) : List Node :=
  Node.walkAll t.children

/-- Whether a form is below the root. -/
def containsForm (t : Tree) : Bool :=
  t.walk.any Node.isForm

end Tree

end Mockup.Ui
