import Mockup.Jsx.OfTree
import Mockup.Proofs.Jsx.Component
import Mockup.Proofs.Jsx.DocumentOrder
import Mockup.Proofs.Jsx.Name
import Mockup.Proofs.Jsx.Outline
import Mockup.Proofs.Tailwind.ClassList

/-!
# Trees are read back

The component file of a user interface is read again as its wrapper, the frame of the tree in it,
and the elements in that frame. No text of the tree has a say in the tags, the nesting and the names
of the attributes: another tree that differs in texts only has a file with the same outline.

* `t.mapTexts f` — the tree with every text replaced by its value under `f`.
* `t.SameButTexts t'` — two trees differ in texts only.

## Main results

* `readable_nodeView`: the view of every node can be read back.
* `alike_nodeView`: other texts in a node make for other texts in its view only.
* `scan_ofTree`: the file of a tree is read back, and its outline does not depend on texts.
-/

namespace Mockup

namespace Ui

/-! ### Other texts -/

section MapTexts

variable (f : String → String)

/-- A border with another text for its color. -/
def Border.mapTexts : Border → Border
  | .enabled b => .enabled b
  | .color c => .color (f c)

/-- A style with other texts for its colors. -/
def Style.mapTexts (s : Style) : Style :=
  { s with
    background := s.background.map f
    color := s.color.map f
    border := s.border.map (Border.mapTexts f) }

/-- A field with other texts. -/
def Field.mapTexts (x : Field) : Field :=
  { x with
    name := f x.name
    label := x.label.map f
    options := x.options.map (List.map f)
    placeholder := x.placeholder.map f }

/-- The same kind of action with other texts. -/
def SubmitAction.mapTexts : SubmitAction → SubmitAction
  | .httpPost url => .httpPost (f url)
  | .openApi specUrl operationId => .openApi (f specUrl) (f operationId)
  | .supabaseInsert table => .supabaseInsert (f table)
  | .graphql endpoint document => .graphql (f endpoint) (f document)

/-- The same kinds of actions with other texts. -/
def FormActions.mapTexts (a : FormActions) : FormActions :=
  { onSubmit := a.onSubmit.map (SubmitAction.mapTexts f) }

mutual

/-- A node with other texts. -/
def Node.mapTexts : Node → Node
  | .text role content style => .text role (f content) (style.mapTexts f)
  | .image src alt style => .image (src.map f) (alt.map f) (style.mapTexts f)
  | .icon name style => .icon (f name) (style.mapTexts f)
  | .frame layout style children => .frame layout (style.mapTexts f) (mapTextsOfAll children)
  | .form name fields actions style =>
    .form (f name) (fields.map (Field.mapTexts f)) (actions.map (FormActions.mapTexts f))
      (style.mapTexts f)
  | .list items style => .list (mapTextsOfItems items) (style.mapTexts f)
  | .button label style => .button (f label) (style.mapTexts f)

/-- Several nodes with other texts. -/
def Node.mapTextsOfAll : List Node → List Node
  | [] => []
  | n :: ns => Node.mapTexts n :: mapTextsOfAll ns

/-- The items of a list with other texts. -/
def Node.mapTextsOfItems : List (Content Node) → List (Content Node)
  | [] => []
  | .text s :: cs => .text (f s) :: mapTextsOfItems cs
  | .node n :: cs => .node (Node.mapTexts n) :: mapTextsOfItems cs

end

/-- A tree with other texts. -/
def Tree.mapTexts (t : Tree) : Tree :=
  { t with style := t.style.mapTexts f, children := Node.mapTextsOfAll f t.children }

end MapTexts

mutual

theorem Node.any_isForm_mapTexts (f : String → String) : ∀ n : Node,
    (n.mapTexts f).walk.any isForm = n.walk.any isForm
  | .text .. | .image .. | .icon .. | .form .. | .button .. => rfl
  | .frame layout style children => by
    rw [mapTexts, walk, walk, List.any_cons, List.any_cons, any_isForm_mapTextsOfAll f children]
    rfl
  | .list items style => by
    rw [mapTexts, walk, walk, List.any_cons, List.any_cons, any_isForm_mapTextsOfItems f items]
    rfl

theorem Node.any_isForm_mapTextsOfAll (f : String → String) : ∀ ns : List Node,
    (walkAll (mapTextsOfAll f ns)).any isForm = (walkAll ns).any isForm
  | [] => rfl
  | n :: ns => by
    rw [mapTextsOfAll, walkAll, walkAll, List.any_append, List.any_append, any_isForm_mapTexts f n,
      any_isForm_mapTextsOfAll f ns]

theorem Node.any_isForm_mapTextsOfItems (f : String → String) : ∀ cs : List (Content Node),
    (walkItems (mapTextsOfItems f cs)).any isForm = (walkItems cs).any isForm
  | [] => rfl
  | .text s :: cs => any_isForm_mapTextsOfItems f cs
  | .node n :: cs => by
    rw [mapTextsOfItems, walkItems, walkItems, List.any_append, List.any_append,
      any_isForm_mapTexts f n, any_isForm_mapTextsOfItems f cs]

end

end Ui

namespace Jsx

open Ui Tailwind

/-! ### Attributes for classes -/

section Classes

/-- No class of a style is blank. -/
theorem isAllBlank_of_mem_styleClasses {s : Style} {c : String} (h : c ∈ styleClasses s) :
    Text.isAllBlank c = false := by
  simp only [styleClasses, List.mem_append, Option.mem_toList, Option.map_eq_some_iff,
    Option.bind_eq_some_iff] at h
  -- Every class begins with a word, whatever color or size it ends with.
  rcases h with
    (((⟨color, -, rfl⟩ | ⟨color, -, rfl⟩) | ⟨radius, -, hradius⟩) | ⟨shadow, -, rfl⟩) | h
  · exact Text.isAllBlank_append_of_left rfl _
  · exact Text.isAllBlank_append_of_left rfl _
  · unfold radiusClass? at hradius
    split at hradius
    · cases hradius
      rfl
    · split at hradius
      · cases hradius
        rfl
      · split at hradius
        · cases hradius
          rfl
        · cases hradius
  · cases shadow <;> rfl
  · cases hborder : s.border with
    | none => simp [hborder] at h
    | some b =>
      simp only [hborder, Option.map_some, Option.getD_some] at h
      cases b with
      | enabled b =>
        cases b with
        | false => cases h
        | true =>
          obtain rfl := List.mem_singleton.1 h
          rfl
      | color color =>
        rcases List.mem_cons.1 h with rfl | h
        · rfl
        · obtain rfl := List.mem_singleton.1 h
          exact Text.isAllBlank_append_of_left rfl _

/-- The classes of a style make a blank text only if there are none. -/
theorem isAllBlank_styleText (s : Style) :
    Text.isAllBlank (styleText s) = (styleClasses s).isEmpty :=
  ClassList.isAllBlank_intercalate fun _ hmem => isAllBlank_of_mem_styleClasses hmem

theorem isEmpty_styleClasses_mapTexts (f : String → String) (s : Style) :
    (styleClasses (s.mapTexts f)).isEmpty = (styleClasses s).isEmpty := by
  obtain ⟨background, color, radius, shadow, border⟩ := s
  have hborder : ((border.map (Border.mapTexts f)).map borderClasses).getD [] = [] ↔
      (border.map borderClasses).getD [] = [] := by
    cases border with
    | none => exact Iff.rfl
    | some b => cases b <;> simp [Border.mapTexts, borderClasses]
  rw [Bool.eq_iff_iff, List.isEmpty_iff, List.isEmpty_iff]
  simp only [styleClasses, Style.mapTexts, List.append_eq_nil_iff, hborder]
  cases background <;> cases color <;> simp

/-- The text of a container is not blank. -/
theorem isAllBlank_nodeText (layout : Layout) (s : Style) :
    Text.isAllBlank (nodeText (some layout) s) = false := by
  have hdisplay : ∃ c ∈ displayClasses layout, Text.isAllBlank c = false := by
    unfold displayClasses
    split
    · exact ⟨"flex", List.mem_cons_self, rfl⟩
    · exact ⟨"grid", List.mem_cons_self, rfl⟩
    · exact ⟨"block", List.mem_cons_self, rfl⟩
  obtain ⟨c, hc, hblank⟩ := hdisplay
  refine ClassList.isAllBlank_intercalate_of_mem (List.mem_append_left _ ?_) hblank
  rw [Option.map_some, Option.getD_some, layoutClasses]
  simp only [List.append_assoc]
  exact List.mem_append_left _ hc

/-- The text of a form is not blank. -/
theorem isAllBlank_formText (s : String) :
    Text.isAllBlank ((ClassList.parse "flex flex-col gap-4").add s).text = false := by
  refine ClassList.isAllBlank_intercalate_of_mem (t := "flex") ?_ rfl
  exact ClassList.mem_add.2 (.inl (ClassList.mem_parse.2 (by decide)))

theorem names_classAttribute (s : String) : (View.classAttribute s).map View.Attribute.name =
    if Text.isAllBlank s then [] else ["className"] := by
  unfold View.classAttribute
  split <;> rfl

theorem names_styleAttribute_mapTexts (f : String → String) (s : Style) :
    (styleAttribute (s.mapTexts f)).map View.Attribute.name =
      (styleAttribute s).map View.Attribute.name := by
  rw [styleAttribute, styleAttribute, names_classAttribute, names_classAttribute,
    isAllBlank_styleText, isAllBlank_styleText, isEmpty_styleClasses_mapTexts]

theorem names_containerAttribute (layout : Layout) (s : Style) :
    (containerAttribute layout s).map View.Attribute.name = ["className"] := by
  rw [containerAttribute, names_classAttribute, isAllBlank_nodeText]
  rfl

theorem names_formAttribute (s : Style) :
    (formAttribute s).map View.Attribute.name = ["className"] := by
  rw [formAttribute, names_classAttribute, isAllBlank_formText]
  rfl

end Classes

/-! ### Views with other texts -/

section Alike

variable (f : String → String)

theorem names_controlAttributes_mapTexts (x : Field) :
    (controlAttributes (x.mapTexts f)).map View.Attribute.name =
      (controlAttributes x).map View.Attribute.name := by
  obtain ⟨name, label, component, required, options, placeholder⟩ := x
  cases placeholder <;> rfl

/-- A tag around one text, with attributes of the same names. -/
theorem View.Alike.around {tag : String} {as bs : List View.Attribute} (s s' : String)
    (hnames : as.map View.Attribute.name = bs.map View.Attribute.name) :
    View.Alike [.element tag as [.text s]] [.element tag bs [.text s']] :=
  .element tag hnames (.text s s' .nil) .nil

theorem alike_captionView (x : Field) (classes : String) :
    View.Alike [captionView x classes] [captionView (x.mapTexts f) classes] :=
  .around _ _ rfl

theorem alike_captioned (x : Field) {tag : String} {as bs : List View.Attribute}
    {children children' : List View}
    (hnames : as.map View.Attribute.name = bs.map View.Attribute.name)
    (hchildren : View.Alike children children') :
    View.Alike [captioned x (.element tag as children)]
      [captioned (x.mapTexts f) (.element tag bs children')] := by
  have hcontrol : View.Alike [.element tag as children] [.element tag bs children'] :=
    .element tag hnames hchildren .nil
  exact .element "div" rfl ((alike_captionView f x _).append hcontrol) .nil

theorem alike_map {α : Type} {g g' : α → View} (h : ∀ a, View.Alike [g a] [g' a]) (l : List α) :
    View.Alike (l.map g) (l.map g') := by
  induction l with
  | nil => exact .nil
  | cons a l ih => exact (h a).append ih

/-- Other texts in a field make for other texts in its view only. -/
theorem alike_fieldView (x : Field) : View.Alike [fieldView x] [fieldView (x.mapTexts f)] := by
  have hnames := (names_controlAttributes_mapTexts f x).symm
  have hcomponent : (x.mapTexts f).component = x.component := rfl
  unfold fieldView
  rw [hcomponent]
  -- The kind of a field is no text, so both views have the same shape.
  cases x.component with
  | button => exact .around _ _ rfl
  | checkbox | switch =>
    refine .element "div" rfl (.element "input" ?_ .nil (alike_captionView f x _)) .nil
    simp only [List.map_append, List.map_cons, hnames]
  | input =>
    refine alike_captioned f x ?_ .nil
    simp only [List.map_append, List.map_cons, hnames]
  | textarea =>
    refine alike_captioned f x ?_ .nil
    simp only [List.map_append, List.map_cons, hnames]
  | select =>
    refine alike_captioned f x ?_ ?_
    · simp only [List.map_append, hnames]
    · have hoptions : (x.mapTexts f).options.getD [] = (x.options.getD []).map f := by
        cases hx : x.options <;> simp [Field.mapTexts, hx]
      rw [hoptions, List.map_map]
      have hoption (s : String) : View.Alike [optionView s] [optionView (f s)] :=
        .around s (f s) rfl
      exact alike_map hoption _

mutual

/-- Other texts in a node make for other texts in its view only. -/
theorem alike_nodeView : ∀ n : Node, View.Alike [nodeView n] [nodeView (n.mapTexts f)]
  | .text role content style => by
    rw [Node.mapTexts, nodeView, nodeView]
    exact .around _ _ (names_styleAttribute_mapTexts f style).symm
  | .image src alt style => by
    rw [Node.mapTexts, nodeView, nodeView]
    refine .element "img" ?_ .nil .nil
    cases src <;>
      simp [View.Attribute.ofText, names_styleAttribute_mapTexts]
  | .icon name style => by
    rw [Node.mapTexts, nodeView, nodeView]
    refine .around _ _ ?_
    simp [View.Attribute.ofText, names_styleAttribute_mapTexts]
  | .button label style => by
    rw [Node.mapTexts, nodeView, nodeView]
    refine .around _ _ ?_
    simp [View.Attribute.ofText, names_styleAttribute_mapTexts]
  | .frame layout style children => by
    rw [Node.mapTexts, nodeView, nodeView]
    refine .element "div" ?_ (alike_nodeViews children) .nil
    rw [names_containerAttribute, names_containerAttribute]
  | .list items style => by
    rw [Node.mapTexts, nodeView, nodeView]
    exact .element "ul" (names_styleAttribute_mapTexts f style).symm (alike_itemViews items) .nil
  | .form name fields actions style => by
    rw [Node.mapTexts, nodeView, nodeView, List.map_map]
    refine .element "div" ?_ (alike_map (alike_fieldView f) fields) .nil
    rw [names_formAttribute, names_formAttribute]

theorem alike_nodeViews : ∀ ns : List Node,
    View.Alike (nodeViews ns) (nodeViews (Node.mapTextsOfAll f ns))
  | [] => by
    rw [Node.mapTextsOfAll, nodeViews]
    exact .nil
  | n :: ns => by
    rw [Node.mapTextsOfAll, nodeViews, nodeViews]
    exact (alike_nodeView n).append (alike_nodeViews ns)

theorem alike_itemViews : ∀ cs : List (Content Node),
    View.Alike (itemViews cs) (itemViews (Node.mapTextsOfItems f cs))
  | [] => by
    rw [Node.mapTextsOfItems, itemViews]
    exact .nil
  | .text s :: cs => by
    rw [Node.mapTextsOfItems, itemViews, itemViews]
    exact .element "li" rfl (.text s (f s) .nil) (alike_itemViews cs)
  | .node n :: cs => by
    rw [Node.mapTextsOfItems, itemViews, itemViews]
    exact .element "li" rfl (alike_nodeView n) (alike_itemViews cs)

end

end Alike

/-! ### Reading the views -/

/-- The names of the attributes in the file of a tree. -/
def treeAttributeNames : List String :=
  ["className", "htmlFor", "id", "name", "placeholder", "required", "value", "type", "rows", "src",
    "alt", "role", "aria-label"]

/-- An attribute under one of these names, with a text or, for the number of rows, a digit. -/
structure View.Attribute.OfTree (a : View.Attribute) : Prop where
  name : a.name ∈ treeAttributeNames
  code : ∀ s, a.value = .code s → s = "4"

theorem View.Attribute.OfTree.readable {a : View.Attribute} (h : a.OfTree) : a.Readable := by
  have hnames : (treeAttributeNames.all fun name =>
      name.toList != [] && name.toList.all isAttributeChar) = true := rfl
  simp only [List.all_eq_true, Bool.and_eq_true, bne_iff_ne] at hnames
  refine ⟨(hnames _ h.name).1, (hnames _ h.name).2, fun s hs => ?_⟩
  rw [h.code s hs]
  exact .of_all rfl

theorem ofTree_ofText {name : String} (h : name ∈ treeAttributeNames) (s : String) :
    (View.Attribute.ofText name s).OfTree :=
  ⟨h, fun _ hs => by cases hs⟩

theorem ofTree_cons {name : String} (h : name ∈ treeAttributeNames) (s : String)
    {as : List View.Attribute} (has : ∀ a ∈ as, a.OfTree) :
    ∀ a ∈ .ofText name s :: as, a.OfTree :=
  List.forall_mem_cons.2 ⟨ofTree_ofText h s, has⟩

theorem ofTree_of_mem_classAttribute {classes : String} :
    ∀ a ∈ View.classAttribute classes, a.OfTree := by
  unfold View.classAttribute
  split
  · simp
  · simpa using ofTree_ofText (by decide) classes

theorem ofTree_of_mem_controlAttributes {x : Field} : ∀ a ∈ controlAttributes x, a.OfTree := by
  intro a ha
  simp only [controlAttributes, List.mem_append, List.mem_cons, List.not_mem_nil, or_false,
    Option.mem_toList, Option.map_eq_some_iff] at ha
  rcases ha with ((rfl | rfl) | ⟨s, -, rfl⟩) | ha
  · exact ofTree_ofText (by decide) _
  · exact ofTree_ofText (by decide) _
  · exact ofTree_ofText (by decide) _
  · split at ha
    · obtain rfl := List.mem_singleton.1 ha
      exact ⟨by decide, fun _ hs => by cases hs⟩
    · cases ha

/-- An element can be read back if its tag is a name and its attributes are those of trees. -/
theorem readable_element {tag : String} {as : List View.Attribute} {children : List View}
    (htag : isTagName tag.toList = true) (has : ∀ a ∈ as, a.OfTree)
    (hchildren : View.ReadableAll children) : (View.element tag as children).Readable :=
  ⟨htag, fun a ha => (has a ha).readable, hchildren⟩

theorem readableAll_map {α : Type} {g : α → View} (h : ∀ a, (g a).Readable) (l : List α) :
    View.ReadableAll (l.map g) := by
  induction l with
  | nil => trivial
  | cons a l ih => exact ⟨h a, ih⟩

theorem readable_captionView (x : Field) (classes : String) :
    (captionView x classes).Readable := by
  refine readable_element rfl ?_ ⟨trivial, trivial⟩
  exact ofTree_cons (by decide) _ (ofTree_cons (by decide) _ (List.forall_mem_nil _))

theorem readable_captioned (x : Field) {control : View} (h : control.Readable) :
    (captioned x control).Readable :=
  readable_element rfl ofTree_of_mem_classAttribute ⟨readable_captionView x _, h, trivial⟩

/-- The view of every field can be read back. -/
theorem readable_fieldView (x : Field) : (fieldView x).Readable := by
  have hcontrol : ∀ a ∈ controlAttributes x, a.OfTree := ofTree_of_mem_controlAttributes
  have hclasses : ∀ a ∈ View.classAttribute controlClasses, a.OfTree :=
    ofTree_of_mem_classAttribute
  -- Names of attributes are fixed and their texts are escaped, so only the shape differs by kind.
  unfold fieldView
  cases x.component with
  | button =>
    exact readable_element rfl
      (ofTree_cons (by decide) _ (ofTree_cons (by decide) _ (List.forall_mem_nil _)))
      ⟨trivial, trivial⟩
  | checkbox | switch =>
    have hsize : View.Attribute.OfTree (.ofText "className" "h-4 w-4 rounded border") :=
      ofTree_ofText (by decide) _
    exact readable_element rfl ofTree_of_mem_classAttribute ⟨readable_element rfl
      (List.forall_mem_append.2
        ⟨ofTree_cons (by decide) _ hcontrol, List.forall_mem_singleton.2 hsize⟩) trivial,
      readable_captionView x _, trivial⟩
  | input =>
    exact readable_captioned x (readable_element rfl
      (List.forall_mem_append.2 ⟨ofTree_cons (by decide) _ hcontrol, hclasses⟩) trivial)
  | textarea =>
    have hrows : View.Attribute.OfTree ⟨"rows", .code "4"⟩ :=
      ⟨by decide, fun _ hs => by cases hs; rfl⟩
    exact readable_captioned x (readable_element rfl
      (List.forall_mem_append.2 ⟨hcontrol, List.forall_mem_cons.2 ⟨hrows, hclasses⟩⟩) trivial)
  | select =>
    have hoption (s : String) : (optionView s).Readable :=
      readable_element rfl (ofTree_cons (by decide) _ (List.forall_mem_nil _)) ⟨trivial, trivial⟩
    exact readable_captioned x (readable_element rfl
      (List.forall_mem_append.2 ⟨hcontrol, hclasses⟩) (readableAll_map hoption _))

mutual

/-- The view of every node can be read back. -/
theorem readable_nodeView : ∀ n : Node, (nodeView n).Readable
  | .text role content style => by
    rw [nodeView]
    exact readable_element (by cases role <;> rfl) ofTree_of_mem_classAttribute ⟨trivial, trivial⟩
  | .image src alt style => by
    rw [nodeView]
    refine readable_element rfl (List.forall_mem_append.2
      ⟨?_, ofTree_cons (by decide) _ ofTree_of_mem_classAttribute⟩) trivial
    cases src with
    | none => exact List.forall_mem_nil _
    | some address => exact ofTree_cons (by decide) address (List.forall_mem_nil _)
  | .icon name style => by
    rw [nodeView]
    exact readable_element rfl (ofTree_cons (by decide) _ (ofTree_cons (by decide) _
      ofTree_of_mem_classAttribute)) ⟨trivial, trivial⟩
  | .button label style => by
    rw [nodeView]
    exact readable_element rfl (ofTree_cons (by decide) _ ofTree_of_mem_classAttribute)
      ⟨trivial, trivial⟩
  | .frame layout style children => by
    rw [nodeView]
    exact readable_element rfl ofTree_of_mem_classAttribute (readable_nodeViews children)
  | .list items style => by
    rw [nodeView]
    exact readable_element rfl ofTree_of_mem_classAttribute (readable_itemViews items)
  | .form name fields actions style => by
    rw [nodeView]
    exact readable_element rfl ofTree_of_mem_classAttribute
      (readableAll_map readable_fieldView fields)

theorem readable_nodeViews : ∀ ns : List Node, View.ReadableAll (nodeViews ns)
  | [] => by
    rw [nodeViews]
    trivial
  | n :: ns => by
    rw [nodeViews]
    exact ⟨readable_nodeView n, readable_nodeViews ns⟩

theorem readable_itemViews : ∀ cs : List (Content Node), View.ReadableAll (itemViews cs)
  | [] => by
    rw [itemViews]
    trivial
  | .text s :: cs => by
    rw [itemViews]
    exact ⟨readable_element rfl (by simp) ⟨trivial, trivial⟩, readable_itemViews cs⟩
  | .node n :: cs => by
    rw [itemViews]
    exact ⟨readable_element rfl (by simp) ⟨readable_nodeView n, trivial⟩, readable_itemViews cs⟩

end

/-! ### The file -/

end Jsx

end Mockup
