import Mockup.Proofs.Plan.Binding
import Mockup.Proofs.Plan.Walk
import Mockup.Proofs.Ui.FieldNames

/-!
# Controls of a plan

The components of a plan that send a value are those with a text as their prop `name`. In the plan
of a tree they are the controls of all its forms, one form after the other.

* `n.controls` — the key and the name of each component with a name, in pre-order.

## Main results

* `controls_ofNode`: the component of a node holds the controls of the forms of the node.
* `BuildPlan.controls_ofTree`: the controls in the plan of a tree, bound to a palette.
-/

namespace Mockup

namespace Ui

/-- The key of the component that shows a control. -/
def FieldComponent.key : FieldComponent → String
  | .input => "form.input"
  | .textarea => "form.textarea"
  | .select => "form.select"
  | .checkbox | .switch => "form.checkbox"
  | .button => "form.button"

/-- The key and the name of the component of a field, if the value of the field is sent. -/
def Field.control? (f : Field) : Option (String × String) :=
  f.controlName?.map fun name => (f.component.key, name)

/-- The keys and the names of the components in a form. -/
def Node.controls : Node → List (String × String)
  | .form _ fields _ _ => fields.filterMap Field.control?
  | .text .. | .image .. | .icon .. | .frame .. | .list .. | .button .. => []

theorem Node.map_snd_controls (n : Node) :
    n.controls.map Prod.snd = n.controlNames?.getD [] := by
  cases n with
  | form name fields actions style =>
    rw [controls, controlNames?, List.map_filterMap, Option.getD_some]
    congr 1
    funext f
    rw [Field.control?, Option.map_map]
    exact Option.map_id'
  | text | image | icon | frame | list | button => rfl

/-- The controls of all forms are those of each form, form by form. -/
theorem Node.map_snd_flatMap_controls (ns : List Node) :
    (ns.flatMap controls).map Prod.snd = (ns.filterMap controlNames?).flatten := by
  induction ns with
  | nil => rfl
  | cons n ns ih =>
    rw [List.flatMap_cons, List.map_append, map_snd_controls, ih]
    cases h : n.controlNames? with
    | none => rw [List.filterMap_cons_none h, Option.getD_none, List.nil_append]
    | some names => rw [List.filterMap_cons_some h, Option.getD_some, List.flatten_cons]

end Ui

namespace BuildNode

open Ui

/-! ### Components with a name -/

/-- The prop of a component with a name, if it is a text. -/
def textProp? (n : BuildNode) (name : String) : Option String :=
  match (n.props.getD .empty).get? name with
  | some (.string s) => some s
  | _ => none

/-- The key and the name of a component with a name. -/
def control? (n : BuildNode) : Option (String × String) :=
  (n.textProp? "name").map fun name => (n.key, name)

/-- The keys and the names of the components with a name, in pre-order. -/
def controls (n : BuildNode) : List (String × String) :=
  n.walk.filterMap control?

theorem controls_eq (n : BuildNode) :
    n.controls = n.control?.toList ++ n.descendants.filterMap control? := by
  rw [controls, walk_eq]
  cases h : n.control? with
  | none => rw [List.filterMap_cons_none h, Option.toList_none, List.nil_append]
  | some c => rw [List.filterMap_cons_some h, Option.toList_some, List.singleton_append]

/-- The control that a node is rests on its key and its props. -/
theorem control?_congr {n m : BuildNode} (hkey : n.key = m.key) (hprops : n.props = m.props) :
    n.control? = m.control? := by
  rw [control?, control?, textProp?, textProp?, hkey, hprops]

section Building

variable (n : BuildNode)

@[simp] theorem controls_ofKey (key : String) : (ofKey key).controls = [] := rfl

@[simp] theorem controls_withClasses (classes : String) :
    (n.withClasses classes).controls = n.controls := by
  rw [controls_eq, controls_eq n, descendants_withClasses,
    control?_congr (key_withClasses n classes) (props_withClasses n classes)]

@[simp] theorem controls_withText (s : String) : (n.withText s).controls = n.controls := by
  rw [controls_eq, controls_eq n, descendants_withText,
    control?_congr (key_withText n s) (props_withText n s)]

@[simp] theorem controls_withChild (c : BuildNode) :
    (n.withChild (.node c)).controls = n.controls ++ c.controls := by
  rw [controls_eq, controls_eq n, descendants_withChild, List.filterMap_append, List.append_assoc,
    control?_congr (key_withChild n (.node c)) (props_withChild n (.node c)), controls]

@[simp] theorem controls_withNodes (ns : List BuildNode) :
    (n.withNodes ns).controls = n.controls ++ ns.flatMap controls := by
  rw [controls_eq, controls_eq n, descendants_withNodes, List.filterMap_append,
    List.filterMap_flatMap, List.append_assoc,
    control?_congr (key_withNodes n ns) (props_withNodes n ns)]
  rfl

/-- A prop other than the name leaves the controls as they are. -/
theorem controls_withProp {name : String} (h : "name" ≠ name) (value : Json) :
    (n.withProp name value).controls = n.controls := by
  rw [controls_eq, controls_eq n, descendants_withProp, control?, control?, textProp?, textProp?,
    key_withProp, props_withProp, Option.getD_some, Dict.get?_insert, if_neg h]

/-- A name makes a component without children a control. -/
theorem controls_withName (key name : String) :
    ((ofKey key).withProp "name" (.string name)).controls = [(key, name)] := rfl

end Building

/-! ### Controls of a tree -/

@[simp] theorem controls_ofStyled (key : String) (s : Style) : (ofStyled key s).controls = [] := by
  rw [ofStyled, controls_withClasses, controls_ofKey]

theorem controls_ofControl (key : String) (f : Field) :
    (ofControl key f).controls = [(key, f.name)] := by
  have hcontrol : (((ofKey key).withProp "name" (.string f.name)).withProp "aria-label"
      (.string f.caption)).controls = [(key, f.name)] := by
    rw [controls_withProp _ (by decide), controls_withName]
  unfold ofControl
  simp only
  split
  · rw [controls_withProp _ (by decide), hcontrol]
  · exact hcontrol

theorem controls_withPlaceholder (n : BuildNode) (placeholder : Option String) :
    (n.withPlaceholder placeholder).controls = n.controls := by
  cases placeholder with
  | none => rfl
  | some s => exact controls_withProp n (by decide) _

theorem controls_ofOption (option : String) : (ofOption option).controls = [] := by
  rw [ofOption, controls_withText, controls_withProp _ (by decide), controls_ofKey]

/-- The component of a field is a control under the name of the field, unless it is a button. -/
theorem controls_ofField (f : Field) : (ofField f).controls = f.control?.toList := by
  unfold ofField Field.control? Field.controlName?
  cases f.component with
  | input =>
    simp only
    rw [controls_withPlaceholder, controls_withProp _ (by decide), controls_ofControl]
    rfl
  | textarea =>
    simp only
    rw [controls_withPlaceholder, controls_ofControl]
    rfl
  | select =>
    -- The options of a choice send nothing of their own.
    have hoptions : ((f.options.getD []).map ofOption).flatMap controls = [] := by
      rw [List.flatMap_map, List.flatMap_eq_nil_iff]
      exact fun option _ => controls_ofOption option
    simp only
    rw [controls_withNodes, controls_ofControl, hoptions]
    rfl
  | checkbox => exact controls_ofControl _ f
  | switch => exact controls_ofControl _ f
  | button =>
    simp only
    rw [controls_withText, controls_ofKey]
    rfl

theorem controls_ofImage (src alt : Option String) (s : Style) :
    (ofImage src alt s).controls = [] := by
  unfold ofImage
  cases src with
  | none => exact (controls_withProp _ (by decide) _).trans (controls_ofStyled _ s)
  | some address =>
    simp only
    rw [controls_withProp _ (by decide), controls_withProp _ (by decide), controls_ofStyled]

mutual

/-- The component of a node holds the controls of the forms of the node, form by form. -/
theorem controls_ofNode (palette : Palette) : ∀ n : Node,
    (ofNode palette n).controls = n.walk.flatMap Node.controls
  | .text role content style => by simp [ofNode, Node.walk, Node.controls]
  | .image src alt style => by simp [ofNode, controls_ofImage, Node.walk, Node.controls]
  | .icon name style => by
    rw [ofNode, controls_withText, controls_withProp _ (by decide), controls_ofStyled]
    rfl
  | .button label style => by simp [ofNode, Node.walk, Node.controls]
  | .form name fields actions style => by
    simp [ofNode, Node.walk, Node.controls, List.flatMap_map, controls_ofField,
      List.filterMap_eq_flatMap_toList]
  | .list items style => by
    rw [ofNode, controls_withNodes, controls_ofStyled, List.nil_append, Node.walk,
      List.flatMap_cons, controls_ofItems palette items]
    rfl
  | .frame layout style children => by
    rw [ofNode, controls_withNodes, controls_withClasses, controls_ofKey, List.nil_append,
      Node.walk, List.flatMap_cons, controls_ofNodes palette children]
    rfl

theorem controls_ofNodes (palette : Palette) : ∀ ns : List Node,
    (ofNodes palette ns).flatMap controls = (Node.walkAll ns).flatMap Node.controls
  | [] => rfl
  | n :: ns => by
    rw [ofNodes, List.flatMap_cons, controls_ofNode palette n, controls_ofNodes palette ns,
      Node.walkAll, List.flatMap_append]

theorem controls_ofItems (palette : Palette) : ∀ cs : List (Content Node),
    (ofItems palette cs).flatMap controls = (Node.walkItems cs).flatMap Node.controls
  | [] => rfl
  | .text s :: cs => by
    rw [ofItems, List.flatMap_cons, controls_withText, controls_ofKey, List.nil_append,
      controls_ofItems palette cs, Node.walkItems]
  | .node n :: cs => by
    rw [ofItems, List.flatMap_cons, controls_withChild, controls_ofKey, List.nil_append,
      controls_ofNode palette n, controls_ofItems palette cs, Node.walkItems, List.flatMap_append]

end

/-- Replacing keys replaces those of the controls. -/
theorem controls_mapKeys (f : String → String) (n : BuildNode) :
    (n.mapKeys f).controls = n.controls.map fun c => (f c.1, c.2) := by
  rw [controls, walk_mapKeys, List.filterMap_map, controls, List.map_filterMap]
  congr 1
  funext m
  rw [Function.comp_apply, control?, textProp?, props_mapKeys, key_mapKeys, control?, textProp?,
    Option.map_map]
  rfl

end BuildNode

/-- The controls in the plan of a tree are those of its forms, form by form. -/
theorem BuildPlan.controls_ofTree (palette : Palette) (t : Ui.Tree) (name : String) :
    (ofTree palette t name).plan.root.controls =
      (t.walk.flatMap Ui.Node.controls).map fun c => (palette.resolve c.1, c.2) := by
  rw [ofTree, bind, BuildNode.controls_mapKeys, sketch, BuildNode.controls_withChild,
    BuildNode.controls_withNodes, BuildNode.controls_ofKey, BuildNode.controls_ofKey,
    List.nil_append, List.nil_append, BuildNode.controls_ofNodes, Ui.Tree.walk]

end Mockup
