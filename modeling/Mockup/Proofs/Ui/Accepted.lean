import Mockup.Proofs.Markup.Pruned
import Mockup.Proofs.Text.Words
import Mockup.Proofs.Ui.FieldNames
import Mockup.Proofs.Ui.Validity

/-!
# Trees of mockups are valid

The tree that a mockup is read as passes the check of trees, if the mockup is not too deep and no
corner radius in it is below zero, infinite or not a number. No text of the mockup has a say in
this: where a text is blank, another one stands in for it.

An element becomes at most two levels, since another shape than a rectangle holds a text that names
it. A drawing gives one level back, since the tree is the frame around its parts.

* `n.FitsIn levels` — a node and all below it are valid, and it has no more levels than that.
* `RoundsProperly e` — the corner radius of a rectangle, where one can be read, is one.

## Main results

* `fitsIn_of_inferNode?`: the node of an element fits in one level more than the element has.
* `validate_ofMarkup`: the tree of a mockup passes its check.
-/

namespace Mockup.Ui

open Markup (Element)

/-- A node and all below it are valid, and it has at most so many levels. -/
structure Node.FitsIn (levels : Nat) (n : Node) : Prop where
  /-- No node in it has a problem. -/
  valid : ∀ m ∈ n.walk, m.IsValid
  /-- The number of its levels. -/
  height : n.height ≤ levels

/-- The nodes of a list and all below them are valid, and none has more than so many levels. -/
structure Node.FitInAll (levels : Nat) (ns : List Node) : Prop where
  /-- No node in them has a problem. -/
  valid : ∀ m ∈ Node.walkAll ns, m.IsValid
  /-- The number of their levels. -/
  height : Node.heightOfAll ns ≤ levels

/-- The corner radius of a rectangle is not below zero, not infinite, and a number, if the text that
is given for it can be read at all. -/
def RoundsProperly (e : Element) : Prop :=
  e.name = "rect" → ∀ v ∈ e.attribute? "rx", ∀ x ∈ Decimal.floatOf? (Text.trimmed v.toList),
    ¬ x < 0.0 ∧ x.isInf = false ∧ x.isNaN = false

instance (e : Element) : Decidable (RoundsProperly e) :=
  inferInstanceAs (Decidable (e.name = "rect" → ∀ v ∈ e.attribute? "rx",
    ∀ x ∈ Decimal.floatOf? (Text.trimmed v.toList), ¬ x < 0.0 ∧ x.isInf = false ∧ x.isNaN = false))

/-! ### Names and labels -/

/-- The name of a field has a letter in it, whatever the label. -/
theorem isAllBlank_fieldSlug (label : String) (index : Nat) :
    Text.isAllBlank (fieldSlug label index) = false := by
  unfold fieldSlug
  simp only
  split
  · next h =>
    -- A label that gives a name gives one that begins with a letter.
    obtain ⟨c, hc, halpha⟩ := (Option.any_eq_true _ _).1 h
    refine Text.isAllBlank_of_mem ?_ (Text.isBlank_of_isAlphanum (c := c) ?_)
    · rw [String.toList_ofList]
      exact List.mem_of_head? hc
    · rw [Char.isAlphanum, halpha, Bool.true_or]
  · exact Text.isAllBlank_append_of_left rfl _

theorem isValid_of_mem_inputFields {taken : List String} {index : Nat} {labels : List String}
    {f : Field} (h : f ∈ inputFields taken index labels) : f.IsValid := by
  induction labels generalizing taken index with
  | nil => cases h
  | cons label labels ih =>
    rcases List.mem_cons.1 h with rfl | h
    · obtain ⟨number, hname⟩ := Text.exists_freshName_eq_append taken (fieldSlug label index)
      refine ⟨?_, fun hselect => by cases hselect⟩
      rw [hname]
      exact Text.isAllBlank_append_of_left (isAllBlank_fieldSlug label index) number
    · exact ih h

/-! ### Single elements -/

theorem fitsIn_textNode (fontSize fill content : Option String) :
    (textNode fontSize fill content).FitsIn 1 := by
  refine ⟨List.forall_mem_singleton.2 ⟨by rintro _ ⟨⟩, ?_⟩, Nat.le_refl 1⟩
  -- Content that is nothing but blanks is not taken, and the text says something else instead.
  cases hcontent : (content.map Text.trim).filter fun s => !s.isEmpty with
  | none => rfl
  | some s =>
    obtain ⟨hs, hne⟩ := Option.filter_eq_some_iff.1 hcontent
    obtain ⟨t, -, rfl⟩ := Option.map_eq_some_iff.1 hs
    exact Text.isAllBlank_trim (by simpa using hne)

theorem fitsIn_rectangleFrame (fill stroke : Option String) {cornerRadius : Option String}
    (h : ∀ v ∈ cornerRadius, ∀ x ∈ Decimal.floatOf? (Text.trimmed v.toList),
      ¬ x < 0.0 ∧ x.isInf = false ∧ x.isNaN = false) :
    (rectangleFrame fill cornerRadius stroke).FitsIn 1 := by
  have hradius : isNonNegative
      ((cornerRadius.bind fun v => Decimal.floatOf? (Text.trimmed v.toList)).getD 0.0) = true := by
    cases hread : cornerRadius.bind fun v => Decimal.floatOf? (Text.trimmed v.toList) with
    | none => decide
    | some x =>
      obtain ⟨v, hv, hx⟩ := Option.bind_eq_some_iff.1 hread
      exact isNonNegative_iff.2 (h v hv x hx)
  exact ⟨List.forall_mem_singleton.2 ⟨Style.isValid_of_radius rfl hradius, by decide⟩,
    Nat.le_refl 1⟩

theorem fitsIn_imageNode (address : Option String) : (imageNode address).FitsIn 1 :=
  ⟨List.forall_mem_singleton.2 (by rintro _ ⟨⟩), Nat.le_refl 1⟩

/-- The frame of a shape has a level of its own and one for the text that names the shape. -/
theorem fitsIn_shapeFrame (shape : String) (fill stroke : Option String) :
    (shapeFrame shape fill stroke).FitsIn 2 := by
  have hname : Text.isAllBlank (shape ++ " element") = false :=
    Text.isAllBlank_of_mem (c := 'e') (by simp) rfl
  refine ⟨List.forall_mem_cons.2 ⟨⟨Style.isValid_of_radius rfl (by decide), by decide⟩, ?_⟩,
    Nat.le_refl 2⟩
  exact List.forall_mem_singleton.2 ⟨by rintro _ ⟨⟩, hname⟩

/-- An element that is no group becomes at most two levels. -/
theorem fitsIn_of_shapeNode? {e : Element} (hcorners : RoundsProperly e) {content : Option String}
    {n : Node} (h : shapeNode? e.name e.attribute? content = some n) : n.FitsIn 2 := by
  have deeper {m : Node} (hm : m.FitsIn 1) : m.FitsIn 2 :=
    ⟨hm.valid, Nat.le_succ_of_le hm.height⟩
  unfold shapeNode? at h
  split at h
  · cases h
    exact deeper (fitsIn_textNode _ _ _)
  split at h
  · next hrect =>
    cases h
    exact deeper (fitsIn_rectangleFrame _ _ (hcorners hrect))
  split at h
  · cases h
    exact deeper (fitsIn_imageNode _)
  split at h
  · cases h
    exact fitsIn_shapeFrame _ _ _
  · cases h

/-! ### Groups -/

theorem isValid_formStyle (background : String) : (formStyle background).IsValid :=
  Style.isValid_of_radius rfl (by decide)

/-- A group that stands for a form becomes one level. -/
theorem fitsIn_of_groupForm? {group : Element} {n : Node} (h : groupForm? group = some n) :
    n.FitsIn 1 := by
  unfold groupForm? at h
  simp only at h
  split at h
  · cases h
  · next label labels hlabels =>
    split at h
    · cases h
    split at h
    · cases h
      -- With one rectangle the form is a button, whatever its label.
      have hbutton : Text.isAllBlank "button" = false := by decide
      refine ⟨List.forall_mem_singleton.2 ⟨isValid_formStyle _, by decide, List.cons_ne_nil _ _,
        List.forall_mem_singleton.2 ⟨hbutton, fun hselect => by cases hselect⟩,
        List.nodup_singleton _⟩, Nat.le_refl 1⟩
    · cases h
      -- With several, every label gives a field, and the first of them is there.
      refine ⟨List.forall_mem_singleton.2 ⟨isValid_formStyle _, by decide, ?_,
        fun f hf => isValid_of_mem_inputFields hf, ?_⟩, Nat.le_refl 1⟩
      · rw [hlabels]
        exact List.cons_ne_nil _ _
      · rw [← filterMap_controlName?_inputFields]
        exact (nodup_inputFields [] 0 _).1

mutual

/-- The node of an element fits in one level more than the element has. -/
theorem fitsIn_of_inferNode? : ∀ (e : Element) (n : Node), (∀ x ∈ e.walk, RoundsProperly x) →
    inferNode? e = some n → n.FitsIn (e.depth + 1)
  | ⟨name, attributes, children⟩, n, hcorners, h => by
    rw [Element.depth]
    rw [inferNode?] at h
    by_cases hgroup : isGroupName name
    · simp only [hgroup, if_true] at h
      split at h
      · next form hform =>
        cases h
        obtain ⟨hvalid, hheight⟩ := fitsIn_of_groupForm? hform
        exact ⟨hvalid, by omega⟩
      · unfold groupFrame? at h
        split at h
        · cases h
        · cases h
          -- The parts fit in the levels of the children and one more, and the frame is another one.
          obtain ⟨hvalid, hheight⟩ := fitInAll_inferChildren children fun x hx =>
            hcorners x (List.mem_cons_of_mem _ hx)
          refine ⟨?_, ?_⟩
          · rw [Node.walk, List.forall_mem_cons]
            exact ⟨⟨by rintro _ ⟨⟩, by decide⟩, hvalid⟩
          · rw [Node.height]
            omega
    · simp only [hgroup] at h
      obtain ⟨hvalid, hheight⟩ := fitsIn_of_shapeNode? (hcorners _ List.mem_cons_self) h
      exact ⟨hvalid, by omega⟩

theorem fitInAll_inferChildren : ∀ cs : List (Content Element),
    (∀ x ∈ Element.descendantsIn cs, RoundsProperly x) →
    Node.FitInAll (Element.depthIn cs + 1) (inferChildren cs)
  | [], _ => ⟨List.forall_mem_nil _, Nat.zero_le _⟩
  | .text _ :: cs, hcorners => fitInAll_inferChildren cs hcorners
  | .node e :: cs, hcorners => by
    rw [Element.descendantsIn_node, ← List.cons_append, List.forall_mem_append] at hcorners
    obtain ⟨hvalid, hheight⟩ := fitInAll_inferChildren cs hcorners.2
    rw [inferChildren, Element.depthIn]
    split
    · next n hn =>
      obtain ⟨hvalid', hheight'⟩ := fitsIn_of_inferNode? e n hcorners.1 hn
      refine ⟨?_, ?_⟩
      · rw [Node.walkAll, List.forall_mem_append]
        exact ⟨hvalid', hvalid⟩
      · rw [Node.heightOfAll]
        omega
    · exact ⟨hvalid, by omega⟩

end

/-! ### Mockups -/

/-- The tree around nodes that fit is valid, also if there are none. -/
theorem validate_tree {nodes : List Node} (h : Node.FitInAll maxDepth nodes) :
    (InferenceOptions.tree {} nodes).validate = .ok () := by
  have hoptions :
      ({} : InferenceOptions).layout.IsValid ∧ ({} : InferenceOptions).style.IsValid :=
    ⟨by decide, Style.isValid_of_radius rfl (by decide)⟩
  rw [Tree.validate_eq_ok_iff, Tree.walk, InferenceOptions.tree]
  simp only
  by_cases hnone : nodes.isEmpty
  · -- The text that stands in for the nodes is valid itself.
    rw [if_pos hnone]
    exact ⟨List.cons_ne_nil _ _, hoptions.1, hoptions.2,
      List.forall_mem_singleton.2 ⟨by rintro _ ⟨⟩, by decide⟩, by decide⟩
  · rw [if_neg hnone]
    exact ⟨by simpa using hnone, hoptions.1, hoptions.2, h.valid, h.height⟩

/-- The tree of a mockup passes its check if the mockup has at most 31 levels and rounds its
rectangles properly. -/
theorem validate_ofMarkup {root : Element} (hdepth : root.depth ≤ 31)
    (hcorners : ∀ e ∈ root.walk, RoundsProperly e) :
    (Tree.ofMarkup {} root).validate = .ok () := by
  rw [Tree.ofMarkup]
  refine validate_tree ?_
  split
  · -- The parts of a drawing have one level less than the drawing.
    obtain ⟨name, attributes, children⟩ := root
    obtain ⟨hvalid, hheight⟩ := fitInAll_inferChildren children fun x hx =>
      hcorners x (List.mem_cons_of_mem _ hx)
    rw [Element.depth] at hdepth
    exact ⟨hvalid, by simp only [maxDepth]; omega⟩
  · -- Any other outermost element is a part of its own, which may have one level more.
    cases h : inferNode? root with
    | none => exact ⟨List.forall_mem_nil _, Nat.zero_le _⟩
    | some n =>
      obtain ⟨hvalid, hheight⟩ := fitsIn_of_inferNode? root n hcorners h
      refine ⟨?_, ?_⟩
      · rw [Option.toList_some, Node.walkAll, List.forall_mem_append]
        exact ⟨hvalid, List.forall_mem_nil _⟩
      · rw [Option.toList_some, Node.heightOfAll, Node.heightOfAll, maxDepth]
        omega

/-- Groups inside each other around some children. -/
def nestedGroups : Nat → List (Content Element) → Element
  | 0, children => ⟨"g", [], children⟩
  | n + 1, children => ⟨"g", [], [.node (nestedGroups n children)]⟩

theorem depth_nestedGroups (n : Nat) (children : List (Content Element)) :
    (nestedGroups n children).depth = n + 1 + Element.depthIn children := by
  induction n with
  | zero => rw [nestedGroups, Element.depth, Nat.zero_add, Nat.add_comm]
  | succ n ih =>
    rw [nestedGroups, Element.depth, Element.depthIn, ih, Element.depthIn, Nat.max_zero]
    omega

/-- A circle inside 30 groups, and a rectangle beside it. -/
def deepMockup : Element :=
  nestedGroups 29 [.node ⟨"rect", [("rx", " 1e1 ")], []⟩, .node ⟨"circle", [], []⟩]

/-- The bound is met: the circle becomes a frame with a text on the last level that may be. -/
theorem validate_ofMarkup_deepMockup :
    deepMockup.depth = 31 ∧ (∀ e ∈ deepMockup.walk, RoundsProperly e) ∧
      (Tree.ofMarkup {} deepMockup).validate = .ok () := by
  have hdepth : deepMockup.depth = 31 := depth_nestedGroups 29 _
  have hcorners : ∀ e ∈ deepMockup.walk, RoundsProperly e := by
    decide +kernel
  exact ⟨hdepth, hcorners, validate_ofMarkup (Nat.le_of_eq hdepth) hcorners⟩

end Mockup.Ui
