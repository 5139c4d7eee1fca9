import Mockup.Proofs.Plan.Walk

/-!
# The texts of a plan

The plan of a tree shows the texts that the tree shows, in the same order, and no others.

* `t.visibleTexts` — the texts that a tree shows, in pre-order.
* `n.texts` — the texts inside a component and the ones below it, in pre-order.

## Main results

* `texts_ofNode`: the component of a node holds the texts that the node shows.
* `BuildPlan.texts_bind`: binding a plan to a palette keeps its texts.
-/

namespace Mockup

namespace Ui

/-- The texts that a field shows: what a button says and what a choice offers. -/
def Field.visibleTexts (f : Field) : List String :=
  match f.component with
  | .button => [f.caption]
  | .select => f.options.getD []
  | .input | .textarea | .checkbox | .switch => []

mutual

/-- The texts that a node shows, in pre-order. -/
def Node.visibleTexts : Node → List String
  | .text _ content _ => [content]
  | .image _ _ _ => []
  | .icon name _ => [name]
  | .button label _ => [label]
  | .form _ fields _ _ => fields.flatMap Field.visibleTexts
  | .list items _ => Node.visibleTextsOfItems items
  | .frame _ _ children => Node.visibleTextsOfAll children

/-- The texts that several nodes show. -/
def Node.visibleTextsOfAll : List Node → List String
  | [] => []
  | n :: ns => n.visibleTexts ++ visibleTextsOfAll ns

/-- The texts that the items of a list show. -/
def Node.visibleTextsOfItems : List (Content Node) → List String
  | [] => []
  | .text s :: cs => s :: visibleTextsOfItems cs
  | .node n :: cs => n.visibleTexts ++ visibleTextsOfItems cs

end

/-- The texts that a tree shows, in pre-order. -/
def Tree.visibleTexts (t : Tree) : List String :=
  Node.visibleTextsOfAll t.children

end Ui

namespace BuildNode

open Ui

/-! ### Texts of a component -/

mutual

/-- The texts inside a node and the ones below it, in pre-order. -/
def texts : BuildNode → List String
  | ⟨_, _, _, children⟩ => textsOfChildren children

/-- The texts of the children that a node may have. -/
def textsOfChildren : Option (List (Content BuildNode)) → List String
  | none => []
  | some cs => textsOfAll cs

/-- The texts of a list of children. -/
def textsOfAll : List (Content BuildNode) → List String
  | [] => []
  | .text s :: cs => s :: textsOfAll cs
  | .node n :: cs => texts n ++ textsOfAll cs

end

/-- The texts of a node are those of what is inside it. -/
theorem texts_eq (n : BuildNode) : n.texts = textsOfAll n.content := by
  obtain ⟨key, props, tailwind, children⟩ := n
  cases children with
  | none => rfl
  | some cs => rfl

theorem textsOfAll_append (cs ds : List (Content BuildNode)) :
    textsOfAll (cs ++ ds) = textsOfAll cs ++ textsOfAll ds := by
  induction cs with
  | nil => rfl
  | cons c cs ih =>
    cases c with
    | text s => rw [List.cons_append, textsOfAll, textsOfAll, ih, List.cons_append]
    | node n => rw [List.cons_append, textsOfAll, textsOfAll, ih, List.append_assoc]

theorem textsOfAll_map_node (ns : List BuildNode) :
    textsOfAll (ns.map .node) = ns.flatMap texts := by
  induction ns with
  | nil => rfl
  | cons n ns ih => rw [List.map_cons, textsOfAll, ih, List.flatMap_cons]

section Building

variable (n : BuildNode)

@[simp] theorem texts_ofKey (key : String) : (ofKey key).texts = [] := rfl

@[simp] theorem texts_withProp (name : String) (value : Json) :
    (n.withProp name value).texts = n.texts := by
  rw [texts_eq, content_withProp, ← texts_eq]

@[simp] theorem texts_withClasses (classes : String) : (n.withClasses classes).texts = n.texts := by
  rw [texts_eq, content_withClasses, ← texts_eq]

@[simp] theorem texts_withText (s : String) : (n.withText s).texts = n.texts ++ [s] := by
  rw [texts_eq, content_withText, textsOfAll_append, ← texts_eq, textsOfAll, textsOfAll]

@[simp] theorem texts_withChild (c : BuildNode) :
    (n.withChild (.node c)).texts = n.texts ++ c.texts := by
  rw [texts_eq, content_withChild, textsOfAll_append, ← texts_eq, textsOfAll, textsOfAll,
    List.append_nil]

@[simp] theorem texts_withNodes (ns : List BuildNode) :
    (n.withNodes ns).texts = n.texts ++ ns.flatMap texts := by
  rw [texts_eq, content_withNodes, textsOfAll_append, ← texts_eq, textsOfAll_map_node]

end Building

/-! ### Texts of the components of a tree -/

@[simp] theorem texts_ofStyled (key : String) (s : Style) : (ofStyled key s).texts = [] := by
  rw [ofStyled, texts_withClasses, texts_ofKey]

@[simp] theorem texts_ofControl (key : String) (f : Field) : (ofControl key f).texts = [] := by
  unfold ofControl
  simp only
  split <;> simp

@[simp] theorem texts_withPlaceholder (n : BuildNode) (placeholder : Option String) :
    (n.withPlaceholder placeholder).texts = n.texts := by
  cases placeholder with
  | none => rfl
  | some s => exact texts_withProp n "placeholder" (.string s)

@[simp] theorem texts_ofOption (option : String) : (ofOption option).texts = [option] := by
  simp [ofOption]

/-- The component of a field holds the texts that the field shows. -/
theorem texts_ofField (f : Field) : (ofField f).texts = f.visibleTexts := by
  unfold ofField Field.visibleTexts
  cases f.component with
  | input => simp
  | textarea => simp
  | select => simp [List.flatMap_map]
  | checkbox => simp
  | switch => simp
  | button => simp

theorem texts_ofImage (src alt : Option String) (s : Style) : (ofImage src alt s).texts = [] := by
  unfold ofImage
  cases src <;> simp

mutual

/-- The component of a node holds the texts that the node shows. -/
theorem texts_ofNode (palette : Palette) : ∀ n : Node, (ofNode palette n).texts = n.visibleTexts
  -- A single node has one text at most, the others hold the texts of what is inside them.
  | .text role content style => by simp [ofNode, Node.visibleTexts]
  | .image src alt style => by rw [ofNode, texts_ofImage, Node.visibleTexts]
  | .icon name style => by simp [ofNode, Node.visibleTexts]
  | .button label style => by simp [ofNode, Node.visibleTexts]
  | .form name fields actions style => by
    simp [ofNode, Node.visibleTexts, List.flatMap_map, texts_ofField]
  | .list items style => by
    rw [ofNode, texts_withNodes, texts_ofStyled, List.nil_append, texts_ofItems palette items,
      Node.visibleTexts]
  | .frame layout style children => by
    rw [ofNode, texts_withNodes, texts_withClasses, texts_ofKey, List.nil_append,
      texts_ofNodes palette children, Node.visibleTexts]

theorem texts_ofNodes (palette : Palette) :
    ∀ ns : List Node, (ofNodes palette ns).flatMap texts = Node.visibleTextsOfAll ns
  | [] => rfl
  | n :: ns => by
    rw [ofNodes, List.flatMap_cons, texts_ofNode palette n, texts_ofNodes palette ns,
      Node.visibleTextsOfAll]

theorem texts_ofItems (palette : Palette) :
    ∀ cs : List (Content Node), (ofItems palette cs).flatMap texts = Node.visibleTextsOfItems cs
  | [] => rfl
  | .text s :: cs => by
    rw [ofItems, List.flatMap_cons, texts_withText, texts_ofKey, texts_ofItems palette cs,
      Node.visibleTextsOfItems]
    rfl
  | .node n :: cs => by
    rw [ofItems, List.flatMap_cons, texts_withChild, texts_ofKey, List.nil_append,
      texts_ofNode palette n, texts_ofItems palette cs, Node.visibleTextsOfItems]

end

/-! ### Replaced keys -/

mutual

/-- Other keys leave the texts as they are. -/
theorem texts_mapKeys (f : String → String) : ∀ n : BuildNode, (n.mapKeys f).texts = n.texts
  | ⟨key, props, tailwind, children⟩ => by
    rw [mapKeys, texts, texts, textsOfChildren_mapKeys f children]

theorem textsOfChildren_mapKeys (f : String → String) :
    ∀ children : Option (List (Content BuildNode)),
      textsOfChildren (mapKeysOfChildren f children) = textsOfChildren children
  | none => rfl
  | some cs => by rw [mapKeysOfChildren, textsOfChildren, textsOfChildren, textsOfAll_mapKeys f cs]

theorem textsOfAll_mapKeys (f : String → String) :
    ∀ cs : List (Content BuildNode), textsOfAll (mapKeysOfAll f cs) = textsOfAll cs
  | [] => rfl
  | .text s :: cs => by rw [mapKeysOfAll, textsOfAll, textsOfAll, textsOfAll_mapKeys f cs]
  | .node n :: cs => by
    rw [mapKeysOfAll, textsOfAll, textsOfAll, texts_mapKeys f n, textsOfAll_mapKeys f cs]

end

end BuildNode

namespace BuildPlan

/-- The components of a tree hold the texts that the tree shows. -/
theorem texts_sketch (palette : Palette) (t : Ui.Tree) (name : String) :
    (sketch palette t name).root.texts = t.visibleTexts := by
  simp [sketch, BuildNode.texts_ofNodes, Ui.Tree.visibleTexts]

/-- Binding a plan to a palette keeps its texts. -/
theorem texts_bind (palette : Palette) (p : BuildPlan) :
    (p.bind palette).plan.root.texts = p.root.texts := by
  rw [bind]
  exact BuildNode.texts_mapKeys palette.resolve p.root

end BuildPlan

end Mockup
