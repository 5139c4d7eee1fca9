import Mockup.Jsx.Component
import Mockup.Jsx.Name
import Mockup.Tailwind.ClassList
import Mockup.Tailwind.Utility

/-!
# Components from user interfaces

`ComponentFile.ofTree` writes a tree without a palette, with plain elements. The first form that
says where it sends its data decides what the component does when it is sent.
-/

namespace Mockup.Jsx

open Ui Tailwind

/-! ### Fields -/

/-- The identifier that ties a caption to its control. -/
def fieldId (f : Field) : String :=
  "field-" ++ f.name

/-- The caption of a field. -/
def captionView (f : Field) (classes : String) : View :=
  .element "label" [.ofText "htmlFor" (fieldId f), .ofText "className" classes] [.text f.caption]

/-- The attributes that all controls have. -/
def controlAttributes (f : Field) : List View.Attribute :=
  [.ofText "id" (fieldId f), .ofText "name" f.name] ++
    (f.placeholder.map (View.Attribute.ofText "placeholder")).toList ++
    if f.required == some true then [⟨"required", .flag⟩] else []

/-- The classes of a control that fills its line. -/
def controlClasses : String := "border rounded-md px-3 py-2 w-full"

/-- An option of a choice. -/
def optionView (option : String) : View :=
  .element "option" [.ofText "value" option] [.text option]

/-- A caption above a control. -/
def captioned (f : Field) (control : View) : View :=
  .element "div" (View.classAttribute "flex flex-col gap-1")
    [captionView f "text-sm font-medium", control]

/-- The view of a field. -/
def fieldView (f : Field) : View :=
  match f.component with
  | .button =>
    .element "button"
      [.ofText "type" "submit",
        .ofText "className" "bg-black text-white rounded-md px-4 py-2"]
      [.text f.caption]
  | .checkbox | .switch =>
    .element "div" (View.classAttribute "flex items-center gap-2")
      [.element "input"
          (.ofText "type" "checkbox" :: controlAttributes f ++
            [.ofText "className" "h-4 w-4 rounded border"]) [],
        captionView f "text-sm"]
  | .input =>
    captioned f (.element "input"
      (.ofText "type" "text" :: controlAttributes f ++ View.classAttribute controlClasses) [])
  | .textarea =>
    captioned f (.element "textarea"
      (controlAttributes f ++ ⟨"rows", .code "4"⟩ :: View.classAttribute controlClasses) [])
  | .select =>
    captioned f (.element "select"
      (controlAttributes f ++ View.classAttribute controlClasses)
      ((f.options.getD []).map optionView))

/-! ### Nodes -/

/-- The attribute for the classes of a style. -/
def styleAttribute (s : Style) : List View.Attribute :=
  View.classAttribute (styleText s)

/-- The attribute for the classes of a container. -/
def containerAttribute (layout : Layout) (s : Style) : List View.Attribute :=
  View.classAttribute (nodeText (some layout) s)

/-- The attribute for the classes of a form. -/
def formAttribute (s : Style) : List View.Attribute :=
  View.classAttribute ((ClassList.parse "flex flex-col gap-4").add (styleText s)).text

mutual

/-- The view of a node. -/
def nodeView : Node → View
  | .text role content style => .element role.name (styleAttribute style) [.text content]
  | .image src alt style =>
    .element "img"
      ((src.map (View.Attribute.ofText "src")).toList ++
        .ofText "alt" (alt.getD "") :: styleAttribute style) []
  | .icon name style =>
    .element "span"
      (.ofText "role" "img" :: .ofText "aria-label" name :: styleAttribute style) [.text name]
  | .button label style =>
    .element "button" (.ofText "type" "button" :: styleAttribute style) [.text label]
  | .frame layout style children =>
    .element "div" (containerAttribute layout style) (nodeViews children)
  | .list items style => .element "ul" (styleAttribute style) (itemViews items)
  | .form _ fields _ style => .element "div" (formAttribute style) (fields.map fieldView)

/-- The views of several nodes. -/
def nodeViews : List Node → List View
  | [] => []
  | n :: ns => nodeView n :: nodeViews ns

/-- The views of the items of a list. -/
def itemViews : List (Content Node) → List View
  | [] => []
  | .text s :: cs => .element "li" [] [.text s] :: itemViews cs
  | .node n :: cs => .element "li" [] [nodeView n] :: itemViews cs

end

/-- What a node says happens when it is sent. -/
def submitAction? : Node → Option SubmitAction
  | .form _ _ actions _ => actions.bind (·.onSubmit)
  | _ => none

/-- The wrapper of a tree. -/
def Wrapper.ofTree (t : Tree) : Wrapper :=
  if t.containsForm then .form (t.walk.findSome? submitAction?) else .plain

/-- The component of a tree under a name. -/
def Component.ofTree (t : Tree) (name : String) : Component :=
  { name := componentName name
    imports := []
    wrapper := .ofTree t
    body := .element "div" (containerAttribute t.layout t.style) (nodeViews t.children) }

/-- The component file of a tree under a name. -/
def ComponentFile.ofTree (directory : String) (t : Tree) (name : String) : ComponentFile :=
  let c := Component.ofTree t name
  { name := c.name
    path := filePath directory c.name
    code := c.source
    warnings := nameWarnings name c.name }

end Mockup.Jsx
