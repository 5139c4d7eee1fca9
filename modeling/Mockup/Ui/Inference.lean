import Mockup.Markup.Feature
import Mockup.Text.Identifier
import Mockup.Ui.Tree

/-!
# From markup to user interfaces

Each element of a mockup is read by the first rule that applies.

* `text` and `tspan` are texts, whose role follows from the size of the font.
* `rect` is an empty frame, and `image` is an image.
* A group with one `rect` and some `text` is a button, as a form with one field.
* A group with several `rect`s and some `text` is a form with one input for each text.
* Another simple shape is a frame that names it; another group is a frame around its parts.

A mockup in which nothing was found gets one text that says so.
-/

namespace Mockup.Ui

/-- The frame around all that is found. -/
structure InferenceOptions where
  /-- The arrangement of the frame. -/
  layout : Layout := .column 16.0 none
  /-- The look of the frame. -/
  style : Style := { background := some "#ffffff", radius := some 8.0, shadow := some .small }

/-- What stands for a mockup in which nothing was found. -/
def noContentMessage : String :=
  "SVG content detected but no recognizable elements found"

/-- The shapes that become a frame which names them. -/
def simpleShapes : List String :=
  ["circle", "ellipse", "path", "polygon", "polyline"]

/-! ### Nodes for single elements -/

/-- A text. Its content is `Text` where there is none, and its role that of the font size. -/
def textNode (fontSize fill content : Option String) : Node :=
  let role := ((fontSize.bind Markup.number?).map TextRole.ofFontSize).getD .paragraph
  let content := ((content.map Text.trim).filter fun s => !s.isEmpty).getD "Text"
  .text role content { color := some (fill.getD "#000000") }

/-- The frame of a rectangle. -/
def rectangleFrame (fill cornerRadius stroke : Option String) : Node :=
  let radius := (cornerRadius.bind fun v => Decimal.floatOf? (Text.trimmed v.toList)).getD 0.0
  .frame (.column 12.0 (some 16.0))
    { background := some (fill.getD "#ffffff")
      radius := some radius
      shadow := some .small
      border := some (.enabled stroke.isSome) }
    []

/-- An image. -/
def imageNode (address : Option String) : Node :=
  .image address (some "") {}

/-- The frame of another shape, with its name as a text inside. -/
def shapeFrame (shape : String) (fill stroke : Option String) : Node :=
  .frame (.column 8.0 (some 12.0))
    { background := some (fill.getD "#f0f0f0")
      radius := some 4.0
      shadow := some .small
      border := some (.enabled stroke.isSome) }
    [.text .paragraph (shape ++ " element") { color := some (stroke.getD "#666666") }]

/-- The look of a form with a background. -/
def formStyle (background : String) : Style :=
  { background := some background, radius := some 8.0, shadow := some .small }

/-- A button as a form with one field. -/
def buttonForm (label : String) : Node :=
  let label := if label.isEmpty then "Button" else label
  .form "buttonForm" [{ name := "button", component := .button, label := some label }] none
    (formStyle "#3b82f6")

/-- The name of a form field with a label: the label in camel case, or a name with the position of
the field if the label does not begin with a letter. -/
def fieldSlug (label : String) (index : Nat) : String :=
  let name := Text.camelCase label.toList
  if name.head?.any Char.isAlpha then String.ofList name else "field" ++ toString index

/-- The fields of a form, one for each label, numbered from `index`. No name is in `taken` or is
used twice. -/
def inputFields (taken : List String) (index : Nat) : List String → List Field
  | [] => []
  | label :: labels =>
    let name := Text.freshName taken (fieldSlug label index)
    let number := toString (index + 1)
    { name
      component := .input
      label := some (if label.isEmpty then "Field " ++ number else label)
      placeholder :=
        some (if label.isEmpty then "Enter field " ++ number else "Enter " ++ label) } ::
      inputFields (name :: taken) (index + 1) labels

/-- A form with one input for each label. -/
def inputForm (labels : List String) : Node :=
  .form "generatedForm" (inputFields [] 0 labels) none (formStyle "#f9fafb")

/-! ### Elements and groups -/

/-- The form that a group stands for: a button if it holds one rectangle and some text, inputs if it
holds several. -/
def groupForm? (group : Markup.Element) : Option Node :=
  let inside := group.descendants
  let rectangles := inside.countP fun e => e.name == "rect"
  let labels := (inside.filter fun e => e.name == "text").map Markup.Element.textContent
  match labels with
  | [] => none
  | label :: _ =>
    if rectangles = 0 then none
    else if rectangles = 1 then some (buttonForm label)
    else some (inputForm labels)

/-- The frame around the parts of a group; without parts there is none. -/
def groupFrame? (parts : List Node) : Option Node :=
  if parts.isEmpty then none else some (.frame { direction := some .column } {} parts)

/-- The node of an element that is no group. -/
def shapeNode? (name : String) (attribute? : String → Option String) (content : Option String) :
    Option Node :=
  if name = "text" ∨ name = "tspan" then
    some (textNode (attribute? "font-size") (attribute? "fill") content)
  else if name = "rect" then
    some (rectangleFrame (attribute? "fill") (attribute? "rx") (attribute? "stroke"))
  else if name = "image" then some (imageNode (attribute? "href"))
  else if simpleShapes.contains name then
    some (shapeFrame name (attribute? "fill") (attribute? "stroke"))
  else none

/-- Whether an element groups others. -/
def isGroupName (name : String) : Bool :=
  name == "g" || name == "svg"

mutual

/-- The node of an element, if a rule applies. -/
def inferNode? : Markup.Element → Option Node
  | ⟨name, attributes, children⟩ =>
    let e : Markup.Element := ⟨name, attributes, children⟩
    if isGroupName name then
      match groupForm? e with
      | some form => some form
      | none => groupFrame? (inferChildren children)
    else shapeNode? name e.attribute? (some e.textContent)

/-- The nodes of the elements in a list of children. -/
def inferChildren : List (Content Markup.Element) → List Node
  | [] => []
  | .text _ :: cs => inferChildren cs
  | .node e :: cs =>
    match inferNode? e with
    | some n => n :: inferChildren cs
    | none => inferChildren cs

end

/-- The tree around some nodes, or around the text that says that there are none. -/
def InferenceOptions.tree (options : InferenceOptions) (nodes : List Node) : Tree :=
  { layout := options.layout
    style := options.style
    children :=
      if nodes.isEmpty then [.text .paragraph noContentMessage {}] else nodes }

/-- The tree of a mockup: of the parts of its drawing, or of its only element. -/
def Tree.ofMarkup (options : InferenceOptions) (root : Markup.Element) : Tree :=
  options.tree
    (if root.name = "svg" then inferChildren root.children else (inferNode? root).toList)

/-- The flat tree of a sequence of features, in which groups do not count. -/
def Tree.ofFeatures (options : InferenceOptions) (features : List Markup.Feature) : Tree :=
  options.tree ((features.filter fun f => !f.isGroup).filterMap fun f =>
    shapeNode? f.kind f.attribute? f.text)

end Mockup.Ui
