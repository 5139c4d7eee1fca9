import Mockup.Jsx.Component
import Mockup.Jsx.Name
import Mockup.Plan.Binding
import Mockup.Tailwind.ClassList

/-!
# Components from plans

`ComponentFile.ofPlan` writes a plan with the components of a palette. The props and classes of a
node add to those of its entry. A node with a key that the palette does not have is shown by a
placeholder, and nothing below it is shown.
-/

namespace Mockup.Jsx

open Tailwind (ClassList)

/-! ### Attributes of a node -/

/-- The props of a node on top of those of its entry. -/
def propsOf (entry : Palette.Entry) (n : BuildNode) : Dict Json :=
  (entry.defaultProps.getD .empty).override (n.props.getD .empty)

/-- The classes that stand in the prop for classes, if it is a text. -/
def classProp (props : Dict Json) : String :=
  match props.get? "className" with
  | some (.string s) => s
  | _ => ""

/-- The classes of a node: those of its entry, its own, and those among its props. -/
def classesOf (entry : Palette.Entry) (n : BuildNode) : ClassList :=
  ((ClassList.parse (entry.tailwind.getD "")).add (n.tailwind.getD "")).add
    (classProp (propsOf entry n))

/-- The props of a node but for its classes. -/
def plainProps (entry : Palette.Entry) (n : BuildNode) : List (String × Json) :=
  ((propsOf entry n).erase "className").entries

/-- The attribute that a prop becomes; null becomes none. -/
def attributeOf (name : String) : Json → Option View.Attribute
  | .null => none
  | .bool true => some ⟨name, .flag⟩
  | .string s => some ⟨name, .text s⟩
  | value => some ⟨name, .code value.compact⟩

/-- The attributes of a node. -/
def attributesOf (entry : Palette.Entry) (n : BuildNode) : List View.Attribute :=
  View.classAttribute (classesOf entry n).text ++
    (plainProps entry n).filterMap fun (name, value) =>
      if isAttributeName name then attributeOf name value else none

/-- Whether the prop for classes is there but no text. -/
def hasOddClassProp (props : Dict Json) : Bool :=
  match props.get? "className" with
  | none | some (.string _) => false
  | some _ => true

/-- The remarks on the props of a node. -/
def propWarnings (entry : Palette.Entry) (n : BuildNode) : List Warning :=
  (if hasOddClassProp (propsOf entry n) then [.droppedProp n.key "className"] else []) ++
    ((plainProps entry n).filter fun p => !isAttributeName p.1).map fun p =>
      .droppedProp n.key p.1

/-! ### Views of plans -/

/-- What is shown for a key that the palette does not have. -/
def placeholder (key : String) : View :=
  .element "div" [.ofText "data-unresolved" key] [.text ("Unknown component: " ++ key)]

mutual

/-- The view of a node. -/
def viewOf (palette : Palette) : BuildNode → View
  | ⟨key, props, tailwind, children⟩ =>
    match palette.lookup? key with
    | none => placeholder key
    | some entry =>
      .element entry.tag (attributesOf entry ⟨key, props, tailwind, children⟩)
        (viewsOfChildren palette children)

/-- The views of the children that a node may have. -/
def viewsOfChildren (palette : Palette) : Option (List (Content BuildNode)) → List View
  | none => []
  | some cs => viewsOf palette cs

/-- The views of a list of children. -/
def viewsOf (palette : Palette) : List (Content BuildNode) → List View
  | [] => []
  | .text s :: cs => .text s :: viewsOf palette cs
  | .node n :: cs => viewOf palette n :: viewsOf palette cs

end

mutual

/-- The remarks on the view of a node. -/
def warningsOf (palette : Palette) : BuildNode → List Warning
  | ⟨key, props, tailwind, children⟩ =>
    match palette.lookup? key with
    | none => [.unknownKey key]
    | some entry =>
      propWarnings entry ⟨key, props, tailwind, children⟩ ++ warningsOfChildren palette children

/-- The remarks on the views of the children that a node may have. -/
def warningsOfChildren (palette : Palette) : Option (List (Content BuildNode)) → List Warning
  | none => []
  | some cs => warningsOfAll palette cs

/-- The remarks on the views of a list of children. -/
def warningsOfAll (palette : Palette) : List (Content BuildNode) → List Warning
  | [] => []
  | .text _ :: cs => warningsOfAll palette cs
  | .node n :: cs => warningsOf palette n ++ warningsOfAll palette cs

end

/-- The tags of controls that belong into a form. -/
def controlTags : List String := ["input", "textarea", "select"]

/-- Whether a key names a control of a form. -/
def isControlKey (palette : Palette) (key : String) : Bool :=
  "form.".toList.isPrefixOf key.toList ||
    (palette.lookup? key).any fun e => controlTags.contains e.tag

/-- The wrapper of a plan: a form if there is a control anywhere in it. -/
def Wrapper.ofPlan (palette : Palette) (p : BuildPlan) : Wrapper :=
  if p.root.keys.any (isControlKey palette) then .form none else .plain

/-- The component of a plan. -/
def Component.ofPlan (palette : Palette) (p : BuildPlan) : Component :=
  { name := componentName p.name
    imports := p.neededImports palette
    wrapper := .ofPlan palette p
    body := viewOf palette p.root }

/-- The component file of a plan. -/
def ComponentFile.ofPlan (palette : Palette) (directory : String) (p : BuildPlan) :
    ComponentFile :=
  let c := Component.ofPlan palette p
  { name := c.name
    path := filePath directory c.name
    code := c.source
    warnings := nameWarnings p.name c.name ++ warningsOf palette p.root }

theorem code_ofPlan (palette : Palette) (directory : String) (p : BuildPlan) :
    (ComponentFile.ofPlan palette directory p).code = (Component.ofPlan palette p).source := by
  rw [ComponentFile.ofPlan]

theorem name_ofPlan (palette : Palette) (p : BuildPlan) :
    (Component.ofPlan palette p).name = componentName p.name := by
  rw [Component.ofPlan]

theorem path_ofPlan (palette : Palette) (directory : String) (p : BuildPlan) :
    (ComponentFile.ofPlan palette directory p).path =
      filePath directory (componentName p.name) := by
  rw [ComponentFile.ofPlan, name_ofPlan]

theorem warnings_ofPlan (palette : Palette) (directory : String) (p : BuildPlan) :
    (ComponentFile.ofPlan palette directory p).warnings =
      nameWarnings p.name (componentName p.name) ++ warningsOf palette p.root := by
  rw [ComponentFile.ofPlan, name_ofPlan]

theorem wrapper_ofPlan (palette : Palette) (p : BuildPlan) :
    (Component.ofPlan palette p).wrapper = Wrapper.ofPlan palette p := by
  rw [Component.ofPlan]

end Mockup.Jsx
