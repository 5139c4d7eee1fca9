import Mockup.Proofs.Markup.Features
import Mockup.Proofs.Text.Spacing
import Mockup.Ui.Inference

/-!
# The flat tree of a mockup

A mockup is read in two ways: element by element, where groups become frames or forms, and as the
sequence of its features, in which groups do not count. If no group stands for a form, and no
element has more to say than its feature, the two trees differ in the frames around the groups
only.

* `n.ungrouped` — what a node becomes when frames around groups are replaced by what they hold.
* `IsPlainMockup root` — the conditions on a mockup.
* `drawnNames` — the names of the elements that become a node of their own.

## Main results

* `shapeNode?_ofElement`: an element and its feature become the same node.
* `flattens_inferNode?`: without the frames around groups, the node of an element is the list of
  nodes of its features.
* `ungroupedAll_ofMarkup`: the same for a mockup.
-/

namespace Mockup

namespace Markup.Element

/-- An element says no more than its feature does. -/
structure IsPlain (e : Element) : Prop where
  /-- The attributes differ in their names. -/
  attributes : (e.attributes.map Prod.fst).Nodup
  /-- Only groups hold elements. -/
  leaf : Ui.isGroupName e.name = false → e.elements = []
  /-- There is one run of text, if any. -/
  run : e.name = "text" ∨ e.name = "tspan" → (Content.texts e.children).length ≤ 1
  /-- Its words are one space apart. -/
  spaced : e.name = "text" ∨ e.name = "tspan" → ∀ s ∈ Content.texts e.children,
    Text.isSingleSpaced (Text.trimmed s.toList) = true

instance (e : Element) : Decidable e.IsPlain :=
  decidable_of_iff
    ((e.attributes.map Prod.fst).Nodup ∧ (Ui.isGroupName e.name = false → e.elements = []) ∧
      (e.name = "text" ∨ e.name = "tspan" → (Content.texts e.children).length ≤ 1) ∧
      (e.name = "text" ∨ e.name = "tspan" → ∀ s ∈ Content.texts e.children,
        Text.isSingleSpaced (Text.trimmed s.toList) = true))
    ⟨fun ⟨hattributes, hleaf, hrun, hspaced⟩ => ⟨hattributes, hleaf, hrun, hspaced⟩,
      fun ⟨hattributes, hleaf, hrun, hspaced⟩ => ⟨hattributes, hleaf, hrun, hspaced⟩⟩

/-- A rectangle and a text stand below an element. -/
def HoldsBoth (e : Element) : Prop :=
  (∃ x ∈ e.descendants, x.name = "rect") ∧ ∃ x ∈ e.descendants, x.name = "text"

instance (e : Element) : Decidable e.HoldsBoth :=
  inferInstanceAs (Decidable
    ((∃ x ∈ e.descendants, x.name = "rect") ∧ ∃ x ∈ e.descendants, x.name = "text"))

/-- Below an element that holds no elements there is nothing. -/
theorem descendants_of_elements_eq_nil {e : Element} (h : e.elements = []) :
    e.descendants = [] := by
  rw [descendants_eq, h, List.flatMap_nil]

/-- The texts in a list of children without elements are the texts among the children. -/
theorem allTextsIn_of_nodes_eq_nil {cs : List (Content Element)} (h : Content.nodes cs = []) :
    allTextsIn cs = Content.texts cs := by
  induction cs with
  | nil => rfl
  | cons c cs ih =>
    cases c with
    | text s => exact congrArg (s :: ·) (ih h)
    | node e => cases h

end Markup.Element

namespace Ui

open Markup (Element Feature)

/-! ### Without frames around groups -/

namespace Node

mutual

/-- What a node becomes when frames around groups are replaced by what they hold. -/
def ungrouped : Node → List Node
  | .frame layout style children =>
    if layout = { direction := some .column } ∧ style = {} then ungroupedAll children
    else [.frame layout style (ungroupedAll children)]
  | n => [n]

/-- What several nodes become when frames around groups are replaced by what they hold. -/
def ungroupedAll : List Node → List Node
  | [] => []
  | n :: ns => ungrouped n ++ ungroupedAll ns

end

theorem ungroupedAll_singleton (n : Node) : ungroupedAll [n] = n.ungrouped := by
  rw [ungroupedAll, ungroupedAll, List.append_nil]

theorem ungrouped_groupFrame (parts : List Node) :
    (frame { direction := some .column } {} parts).ungrouped = ungroupedAll parts := by
  rw [ungrouped, if_pos ⟨rfl, rfl⟩]

/-- A frame with a gap is no frame around a group. -/
theorem ungrouped_frame_of_gap {layout : Layout} {gap : Float} (h : layout.gap = some gap)
    (style : Style) (children : List Node) :
    (frame layout style children).ungrouped = [frame layout style (ungroupedAll children)] := by
  rw [ungrouped, if_neg]
  rintro ⟨rfl, -⟩
  cases h

end Node

/-- The text that says that there is nothing. -/
def noContentNode : Node :=
  .text .paragraph noContentMessage {}

/-- Nodes, none of which says that there is nothing, become these ones when frames around groups are
replaced by what they hold, and none of them is lost. -/
structure Flattens (ns flat : List Node) : Prop where
  /-- What they become. -/
  ungrouped : Node.ungroupedAll ns = flat
  /-- None of them is lost. -/
  kept : ∀ n ∈ ns, n.ungrouped ≠ []
  /-- None of them says that there is nothing. -/
  content : noContentNode ∉ ns

theorem Flattens.append {ns ns' flat flat' : List Node} (h : Flattens ns flat)
    (h' : Flattens ns' flat') : Flattens (ns ++ ns') (flat ++ flat') := by
  refine ⟨?_, List.forall_mem_append.2 ⟨h.kept, h'.kept⟩, ?_⟩
  · rw [← h.ungrouped, ← h'.ungrouped]
    clear h
    induction ns with
    | nil => rfl
    | cons n ns ih =>
      rw [List.cons_append, Node.ungroupedAll, Node.ungroupedAll, ih, List.append_assoc]
  · rw [List.mem_append]
    rintro (hmem | hmem)
    · exact h.content hmem
    · exact h'.content hmem

theorem flattens_nil : Flattens [] [] :=
  ⟨rfl, List.forall_mem_nil _, List.not_mem_nil⟩

/-- There are no nodes exactly if there are none when frames around groups are replaced. -/
theorem Flattens.eq_nil_iff {ns flat : List Node} (h : Flattens ns flat) : ns = [] ↔ flat = [] := by
  rw [← h.ungrouped]
  constructor
  · rintro rfl
    rfl
  · intro hflat
    cases ns with
    | nil => rfl
    | cons n ns =>
      rw [Node.ungroupedAll, List.append_eq_nil_iff] at hflat
      exact absurd hflat.1 (h.kept n List.mem_cons_self)

/-! ### Single elements -/

/-- The names of the elements that become a node of their own. -/
def drawnNames : List String :=
  ["text", "tspan", "rect", "image"] ++ simpleShapes

/-- The content of a text counts only without the blanks around it. -/
theorem textNode_congr {content content' : Option String}
    (h : (content.map Text.trim).filter (fun s => !s.isEmpty) =
      (content'.map Text.trim).filter fun s => !s.isEmpty) (fontSize fill : Option String) :
    textNode fontSize fill content = textNode fontSize fill content' := by
  unfold textNode
  rw [h]

/-- The content of a text is that of its feature. -/
theorem textNode_ofElement {e : Element} (hplain : e.IsPlain) (hleaf : e.elements = [])
    (hname : e.name = "text" ∨ e.name = "tspan") (fontSize fill : Option String) :
    textNode fontSize fill (some e.textContent) = textNode fontSize fill e.firstText := by
  have hrun := hplain.run hname
  have hspaced := hplain.spaced hname
  have htexts : e.allTexts = Content.texts e.children := by
    obtain ⟨name, attributes, children⟩ := e
    exact Element.allTextsIn_of_nodes_eq_nil hleaf
  apply textNode_congr
  rw [Element.textContent, Element.firstText, htexts]
  -- Without a text the content is blank, which counts as none; with one, both are the trimmed text.
  match Content.texts e.children, hrun, hspaced with
  | [], _, _ => rfl
  | [s], _, hspaced =>
    have hcontent : Text.collapsed (String.join ([s].map (· ++ " "))) = Text.trim s := by
      rw [List.map_singleton, String.join_cons, String.join_nil, String.append_empty]
      exact Text.collapsed_append_of_isSingleSpaced (hspaced s List.mem_cons_self)
        (List.forall_mem_singleton.2 rfl)
    rw [hcontent]
    by_cases hblank : Text.isAllBlank s
    · rw [List.find?_cons_of_neg (by simp [hblank]), Text.trim_of_isAllBlank hblank]
      rfl
    · rw [List.find?_cons_of_pos (by simp [hblank])]
      rfl

/-- An element that is no group and its feature become the same node. -/
theorem shapeNode?_ofElement {e : Element} (hplain : e.IsPlain)
    (hgroup : isGroupName e.name = false) :
    shapeNode? e.name e.attribute? (some e.textContent) =
      shapeNode? e.name (Feature.ofElement e).attribute? e.firstText := by
  have hattribute : (Feature.ofElement e).attribute? = e.attribute? :=
    funext (Feature.attribute?_ofElement_of_nodup hplain.attributes)
  rw [hattribute]
  unfold shapeNode?
  split
  · next hname => rw [textNode_ofElement hplain (hplain.leaf hgroup) hname]
  · rfl

/-- A single element becomes a node without groups in it. -/
theorem flattens_of_shapeNode? {name : String} {attribute? : String → Option String}
    {content : Option String} {n : Node} (h : shapeNode? name attribute? content = some n) :
    Flattens [n] [n] := by
  suffices hn : n.ungrouped = [n] ∧ n ≠ noContentNode by
    refine ⟨by rw [Node.ungroupedAll_singleton, hn.1], List.forall_mem_singleton.2 ?_, ?_⟩
    · rw [hn.1]
      exact List.cons_ne_nil n []
    · rw [List.mem_singleton]
      exact Ne.symm hn.2
  unfold shapeNode? at h
  split at h
  · cases h
    -- A text has a color, and the text that says that there is nothing has none.
    exact ⟨rfl, fun heq => Option.some_ne_none _ (congrArg (fun n : Node => n.style.color) heq)⟩
  split at h
  · cases h
    exact ⟨Node.ungrouped_frame_of_gap rfl _ _, Node.noConfusion⟩
  split at h
  · cases h
    exact ⟨rfl, Node.noConfusion⟩
  split at h
  · cases h
    exact ⟨Node.ungrouped_frame_of_gap rfl _ _, Node.noConfusion⟩
  · cases h

/-- An element becomes a node exactly if its name is one of those that are drawn. -/
theorem shapeNode?_eq_none_iff {name : String} {attribute? : String → Option String}
    {content : Option String} :
    shapeNode? name attribute? content = none ↔ name ∉ drawnNames := by
  have hdrawn : name ∈ drawnNames ↔ (name = "text" ∨ name = "tspan") ∨ name = "rect" ∨
      name = "image" ∨ simpleShapes.contains name = true := by
    simp [drawnNames, or_assoc]
  rw [hdrawn]
  unfold shapeNode?
  -- The four questions about the name are those that make up the list.
  split
  · next h => exact iff_of_false (Option.some_ne_none _) fun hnot => hnot (.inl h)
  split
  · next h => exact iff_of_false (Option.some_ne_none _) fun hnot => hnot (.inr (.inl h))
  split
  · next h => exact iff_of_false (Option.some_ne_none _) fun hnot => hnot (.inr (.inr (.inl h)))
  split
  · next h => exact iff_of_false (Option.some_ne_none _) fun hnot => hnot (.inr (.inr (.inr h)))
  · next htext hrect himage hshape =>
    refine iff_of_true rfl ?_
    rintro (h | h | h | h)
    · exact htext h
    · exact hrect h
    · exact himage h
    · exact hshape h

/-! ### Groups -/

/-- A group that does not hold both a rectangle and a text stands for no form. -/
theorem groupForm?_eq_none {e : Element} (h : ¬ e.HoldsBoth) : groupForm? e = none := by
  unfold groupForm?
  simp only
  split
  · rfl
  · next label labels hlabels =>
    have htext : ∃ x ∈ e.descendants, x.name = "text" := by
      obtain ⟨x, rest, hx, -⟩ := List.map_eq_cons_iff.1 hlabels
      have hmem : x ∈ e.descendants.filter fun e => e.name == "text" := by
        rw [hx]
        exact List.mem_cons_self
      obtain ⟨hbelow, hname⟩ := List.mem_filter.1 hmem
      exact ⟨x, hbelow, by simpa using hname⟩
    have hnone : e.descendants.countP (fun e => e.name == "rect") = 0 := by
      rw [List.countP_eq_zero]
      intro x hx hname
      exact h ⟨⟨x, hx, by simpa using hname⟩, htext⟩
    rw [if_pos hnone]

/-- The frame around the parts of a group becomes what they become. -/
theorem Flattens.groupFrame? {parts flat : List Node} (h : Flattens parts flat) :
    Flattens (groupFrame? parts).toList flat := by
  unfold Ui.groupFrame?
  by_cases hnone : parts = []
  · -- There is no frame around nothing.
    rw [List.isEmpty_iff.2 hnone, if_pos rfl, h.eq_nil_iff.1 hnone]
    exact flattens_nil
  · rw [if_neg (by simpa using hnone), Option.toList_some]
    have hparts := Node.ungrouped_groupFrame parts
    refine ⟨?_, List.forall_mem_singleton.2 ?_, ?_⟩
    · rw [Node.ungroupedAll_singleton, hparts, h.ungrouped]
    · rw [hparts, h.ungrouped]
      exact fun hflat => hnone (h.eq_nil_iff.2 hflat)
    · rw [List.mem_singleton]
      exact Node.noConfusion

/-- The node of an element as a feature, if it has one. -/
def flatNode? (e : Element) : Option Node :=
  if isGroupName e.name then none
  else shapeNode? e.name (Feature.ofElement e).attribute? e.firstText

theorem flatNode?_of_isGroupName {e : Element} (h : isGroupName e.name = true) :
    flatNode? e = none :=
  if_pos h

theorem flatNode?_eq_none_iff {e : Element} : flatNode? e = none ↔ e.name ∉ drawnNames := by
  unfold flatNode?
  split
  · next h =>
    refine iff_of_true rfl fun hmem => ?_
    have hdrawn : ∀ name ∈ drawnNames, isGroupName name = false := by decide
    rw [hdrawn _ hmem] at h
    cases h
  · exact shapeNode?_eq_none_iff

/-- The nodes of the features of some elements. -/
theorem filterMap_shapeNode?_ofElement (es : List Element) :
    (((es.map Feature.ofElement).filter fun f => !f.isGroup).filterMap fun f =>
      shapeNode? f.kind f.attribute? f.text) = es.filterMap flatNode? := by
  rw [List.filterMap_filter, List.filterMap_map]
  congr 1
  funext e
  change (if !isGroupName e.name then
    shapeNode? e.name (Feature.ofElement e).attribute? e.firstText else none) = flatNode? e
  unfold flatNode?
  cases isGroupName e.name <;> rfl

mutual

/-- Without the frames around groups, the node of an element is the list of nodes of its
features. -/
theorem flattens_inferNode? : ∀ e : Element,
    (∀ x ∈ e.walk, x.IsPlain ∧ (isGroupName x.name = true → ¬ x.HoldsBoth)) →
    Flattens (inferNode? e).toList (e.walk.filterMap flatNode?)
  | ⟨name, attributes, children⟩, h => by
    obtain ⟨hself, hbelow⟩ := List.forall_mem_cons.1 h
    rw [inferNode?, Element.walk]
    by_cases hgroup : isGroupName name
    · -- A group is a frame around its parts, if there are any.
      rw [List.filterMap_cons_none (flatNode?_of_isGroupName hgroup)]
      simp only [hgroup, if_true, groupForm?_eq_none (hself.2 hgroup)]
      exact (flattens_inferChildren children hbelow).groupFrame?
    · -- Nothing else holds elements, so there is one feature.
      have hgroup : isGroupName name = false := by simpa using hgroup
      have hnone := Element.descendants_of_elements_eq_nil (hself.1.leaf hgroup)
      have hshape := shapeNode?_ofElement hself.1 hgroup
      simp only [hgroup, Bool.false_eq_true, if_false, hnone, List.filterMap_cons,
        List.filterMap_nil, flatNode?]
      simp only at hshape
      rw [hshape]
      split
      · next hn =>
        rw [hn]
        exact flattens_nil
      · next n hn =>
        rw [hn]
        exact flattens_of_shapeNode? hn

theorem flattens_inferChildren : ∀ cs : List (Content Element),
    (∀ x ∈ Element.descendantsIn cs,
      x.IsPlain ∧ (isGroupName x.name = true → ¬ x.HoldsBoth)) →
    Flattens (inferChildren cs) ((Element.descendantsIn cs).filterMap flatNode?)
  | [], _ => flattens_nil
  | .text _ :: cs, h => flattens_inferChildren cs h
  | .node e :: cs, h => by
    rw [Element.descendantsIn_node, ← List.cons_append, List.forall_mem_append] at h
    have hboth := (flattens_inferNode? e h.1).append (flattens_inferChildren cs h.2)
    rw [Element.descendantsIn_node, ← List.cons_append, List.filterMap_append, inferChildren]
    split
    · next n hn =>
      rw [hn] at hboth
      exact hboth
    · next hn =>
      rw [hn] at hboth
      exact hboth

end

/-! ### Mockups -/

/-- In a mockup no element says more than its feature does, and no group stands for a form, unless
it is the drawing as a whole. -/
structure IsPlainMockup (root : Element) : Prop where
  /-- No element says more than its feature. -/
  elements : ∀ e ∈ root.walk, e.IsPlain
  /-- No group below the outermost element holds both a rectangle and a text. -/
  groups : ∀ e ∈ root.descendants, isGroupName e.name = true → ¬ e.HoldsBoth
  /-- Nor does the outermost element, unless it is the drawing. -/
  outermost : root.name ≠ "svg" → ¬ root.HoldsBoth

instance (root : Element) : Decidable (IsPlainMockup root) :=
  decidable_of_iff
    ((∀ e ∈ root.walk, e.IsPlain) ∧
      (∀ e ∈ root.descendants, isGroupName e.name = true → ¬ e.HoldsBoth) ∧
      (root.name ≠ "svg" → ¬ root.HoldsBoth))
    ⟨fun ⟨helements, hgroups, houtermost⟩ => ⟨helements, hgroups, houtermost⟩,
      fun ⟨helements, hgroups, houtermost⟩ => ⟨helements, hgroups, houtermost⟩⟩

/-- A tree says that there is nothing exactly if there are no nodes. -/
theorem noContentNode_mem_tree_iff {options : InferenceOptions} {nodes : List Node}
    (h : noContentNode ∉ nodes) : noContentNode ∈ (options.tree nodes).children ↔ nodes = [] := by
  unfold InferenceOptions.tree
  by_cases hnone : nodes = []
  · simp [hnone, noContentNode]
  · simp [hnone, h]

theorem noContentNode_notMem_filterMap_flatNode? (es : List Element) :
    noContentNode ∉ es.filterMap flatNode? := by
  intro hmem
  obtain ⟨e, -, he⟩ := List.mem_filterMap.1 hmem
  unfold flatNode? at he
  split at he
  · cases he
  · exact (flattens_of_shapeNode? he).content List.mem_cons_self

/-- The tree around nodes becomes the tree around what the nodes become. -/
theorem Flattens.ungroupedAll_tree {nodes flat : List Node} (h : Flattens nodes flat)
    (options : InferenceOptions) :
    Node.ungroupedAll (options.tree nodes).children = (options.tree flat).children := by
  unfold InferenceOptions.tree
  by_cases hnone : nodes = []
  · simp only [List.isEmpty_iff.2 hnone, List.isEmpty_iff.2 (h.eq_nil_iff.1 hnone), if_true]
    rfl
  · have hsome : flat ≠ [] := fun hflat => hnone (h.eq_nil_iff.2 hflat)
    simp only [List.isEmpty_eq_false_iff.2 hnone, List.isEmpty_eq_false_iff.2 hsome,
      Bool.false_eq_true, if_false]
    exact h.ungrouped

/-- Without the frames around groups the tree of a mockup is its flat tree, and both say that there
is nothing exactly if no element is drawn. -/
theorem ungroupedAll_ofMarkup (options : InferenceOptions) {root : Element}
    (h : IsPlainMockup root) :
    Node.ungroupedAll (Tree.ofMarkup options root).children =
        (Tree.ofFeatures options root.features).children ∧
      (noContentNode ∈ (Tree.ofMarkup options root).children ↔
        ∀ e ∈ root.walk, e.name ∉ drawnNames) ∧
      (noContentNode ∈ (Tree.ofFeatures options root.features).children ↔
        ∀ e ∈ root.walk, e.name ∉ drawnNames) := by
  have hflat : Flattens
      (if root.name = "svg" then inferChildren root.children else (inferNode? root).toList)
      (root.walk.filterMap flatNode?) := by
    obtain ⟨hroot, helements⟩ := List.forall_mem_cons.1 h.elements
    have hbelow : ∀ x ∈ root.descendants,
        x.IsPlain ∧ (isGroupName x.name = true → ¬ x.HoldsBoth) :=
      fun x hx => ⟨helements x hx, h.groups x hx⟩
    split
    · next hsvg =>
      -- The drawing itself has no feature that counts.
      obtain ⟨name, attributes, children⟩ := root
      have hgroup : isGroupName name = true := by
        rw [show name = "svg" from hsvg]
        rfl
      rw [Element.walk, List.filterMap_cons_none (flatNode?_of_isGroupName hgroup)]
      exact flattens_inferChildren children hbelow
    · next hsvg =>
      exact flattens_inferNode? root
        (List.forall_mem_cons.2 ⟨⟨hroot, fun _ => h.outermost hsvg⟩, hbelow⟩)
  have hnone : root.walk.filterMap flatNode? = [] ↔ ∀ e ∈ root.walk, e.name ∉ drawnNames := by
    simp only [List.filterMap_eq_nil_iff, flatNode?_eq_none_iff]
  rw [Tree.ofMarkup, Tree.ofFeatures, Element.features_eq, filterMap_shapeNode?_ofElement]
  refine ⟨hflat.ungroupedAll_tree options, ?_, ?_⟩
  · rw [noContentNode_mem_tree_iff hflat.content, hflat.eq_nil_iff, hnone]
  · rw [noContentNode_mem_tree_iff (noContentNode_notMem_filterMap_flatNode? _), hnone]

/-- The drawing of the example: groups in groups, one of them empty, and texts with blanks around
them. -/
def groupedMockup : Element :=
  ⟨"svg", [], [.node ⟨"g", [("id", "a")],
      [.node ⟨"g", [], [.node ⟨"circle", [("fill", "red")], []⟩]⟩,
        .node ⟨"text", [("font-size", "24px")], [.text " Sign in\n"]⟩]⟩,
    .node ⟨"g", [], [.node ⟨"line", [], []⟩]⟩, .node ⟨"rect", [("rx", "4")], []⟩]⟩

theorem ungroupedAll_ofMarkup_groupedMockup :
    IsPlainMockup groupedMockup ∧
      Node.ungroupedAll (Tree.ofMarkup {} groupedMockup).children =
        (Tree.ofFeatures {} groupedMockup.features).children := by
  have hplain : IsPlainMockup groupedMockup := by decide +kernel
  exact ⟨hplain, (ungroupedAll_ofMarkup {} hplain).1⟩

end Ui

end Mockup
