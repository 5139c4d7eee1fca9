import Mockup.Plan.Binding
import Mockup.Tailwind.Utility
import Mockup.Ui.Tree

/-!
# From user interfaces to plans

`BuildPlan.ofTree` gives every node of a tree the component that shows it. The texts of the tree
become the texts of the plan, in the same order.
-/

namespace Mockup

open Ui

namespace BuildNode

/-- A component with nothing of its own. -/
def ofKey (key : String) : BuildNode := { key }

/-- The key of a text: that of its role, or that of a paragraph where the palette has none. -/
def textKey (palette : Palette) (role : TextRole) : String :=
  let key := "typography." ++ role.name
  if palette.contains key then key else "typography.p"

/-- The component of a control with the name, the caption and the need of a field. -/
def ofControl (key : String) (f : Field) : BuildNode :=
  let control := ((ofKey key).withProp "name" (.string f.name)).withProp "aria-label"
    (.string f.caption)
  if f.required == some true then control.withProp "required" (.bool true) else control

/-- Gives a control the text that it shows while it is empty. -/
def withPlaceholder (n : BuildNode) (placeholder : Option String) : BuildNode :=
  match placeholder with
  | none => n
  | some s => n.withProp "placeholder" (.string s)

/-- An option of a choice. -/
def ofOption (option : String) : BuildNode :=
  ((ofKey "form.option").withProp "value" (.string option)).withText option

/-- The component of a field. -/
def ofField (f : Field) : BuildNode :=
  match f.component with
  | .input =>
    ((ofControl "form.input" f).withProp "type" (.string "text")).withPlaceholder f.placeholder
  | .textarea => (ofControl "form.textarea" f).withPlaceholder f.placeholder
  | .select => (ofControl "form.select" f).withNodes ((f.options.getD []).map ofOption)
  | .checkbox | .switch => ofControl "form.checkbox" f
  | .button => (ofKey "form.button").withText f.caption

/-- A component with the classes of a style. -/
def ofStyled (key : String) (s : Style) : BuildNode :=
  (ofKey key).withClasses (Tailwind.styleText s)

/-- The component of an image. -/
def ofImage (src alt : Option String) (s : Style) : BuildNode :=
  let image := (ofStyled "media.img" s).withProp "alt" (.string (alt.getD ""))
  match src with
  | none => image
  | some address => image.withProp "src" (.string address)

mutual

/-- The component of a node. -/
def ofNode (palette : Palette) : Node → BuildNode
  | .text role content style => (ofStyled (textKey palette role) style).withText content
  | .image src alt style => ofImage src alt style
  | .icon name style =>
    ((ofStyled "icon.button" style).withProp "aria-label" (.string name)).withText name
  | .button label style => (ofStyled "form.button" style).withText label
  | .form _ fields _ style =>
    (ofStyled "layout.card" style).withChild
      (.node ((ofKey "layout.stack").withNodes (fields.map ofField)))
  | .list items style => (ofStyled "list.ul" style).withNodes (ofItems palette items)
  | .frame layout style children =>
    ((ofKey "layout.stack").withClasses (Tailwind.nodeText (some layout) style)).withNodes
      (ofNodes palette children)

/-- The components of several nodes. -/
def ofNodes (palette : Palette) : List Node → List BuildNode
  | [] => []
  | n :: ns => ofNode palette n :: ofNodes palette ns

/-- The components of the items of a list. -/
def ofItems (palette : Palette) : List (Content Node) → List BuildNode
  | [] => []
  | .text s :: cs => (ofKey "list.li").withText s :: ofItems palette cs
  | .node n :: cs => (ofKey "list.li").withChild (.node (ofNode palette n)) :: ofItems palette cs

end

end BuildNode

namespace BuildPlan

/-- The components of a tree under a name, before they are bound to the palette. -/
def sketch (palette : Palette) (t : Tree) (name : String) : BuildPlan :=
  { name
    root := (BuildNode.ofKey "layout.card").withChild
      (.node ((BuildNode.ofKey "layout.stack").withNodes (BuildNode.ofNodes palette t.children))) }

/-- The plan of a tree under a name. -/
def ofTree (palette : Palette) (t : Tree) (name : String) : Planned :=
  (sketch palette t name).bind palette

end BuildPlan

end Mockup
