import Mathlib.Data.List.Forall2
import Mockup.Proofs.Jsx.Find
import Mockup.Proofs.Jsx.NodeAttributes
import Mockup.Proofs.Jsx.Outline

/-!
# Plans are read back

The component file of a plan is read again. If the components of the palette need no imports and
have tags that are names, then the elements that a scan finds are the wrapper and, in document
order, the nodes that the plan shows: each with its tag, below the node around it, and with
attributes that stand for the classes and the texts that the component and the node give.

* `HasControl palette p` — there is a control anywhere in the plan.
* `shownNodes palette parent index n` — the nodes that are shown for a node.
* `PlanReadsBack palette p code w rest` — the elements of a file are the wrapper and the nodes.

## Main results

* `readable_viewOf`: the view of every plan can be read back.
* `forall₂_shownNodes`: elements that show a plan are its nodes, in order.
* `scan_ofPlan`: the file of a plan is read back.
-/

namespace Mockup.Jsx

/-! ### What a plan shows -/

/-- A node that a plan shows, with the position of the element around it. -/
structure ShownNode where
  /-- The node. -/
  node : BuildNode
  /-- The position of the element around it. -/
  parent : Nat

mutual

/-- The nodes that are shown for a node at a position, each before those below it. Below a key that
the palette does not have nothing is shown. -/
def shownNodes (palette : Palette) (parent index : Nat) : BuildNode → List ShownNode
  | ⟨key, props, tailwind, children⟩ =>
    ⟨⟨key, props, tailwind, children⟩, parent⟩ ::
      if palette.contains key then shownBelow palette index (index + 1) children else []

/-- The nodes that are shown for the children that a node may have. -/
def shownBelow (palette : Palette) (parent index : Nat) :
    Option (List (Content BuildNode)) → List ShownNode
  | none => []
  | some cs => shownAll palette parent index cs

/-- The nodes that are shown for a list of children from a position on. -/
def shownAll (palette : Palette) (parent index : Nat) : List (Content BuildNode) → List ShownNode
  | [] => []
  | .text _ :: cs => shownAll palette parent index cs
  | .node n :: cs =>
    shownNodes palette parent index n ++
      shownAll palette parent (index + (shownNodes palette parent index n).length) cs

end

/-- A key names a control: it is one for forms, or its component is a control itself. -/
def NamesControl (palette : Palette) (key : String) : Prop :=
  "form.".toList <+: key.toList ∨
    ∃ entry, palette.lookup? key = some entry ∧ entry.tag ∈ ["input", "textarea", "select"]

/-- There is a control anywhere in a plan. -/
def HasControl (palette : Palette) (p : BuildPlan) : Prop :=
  ∃ n ∈ p.root.walk, NamesControl palette n.key

/-- An element has the attributes that a component and a node give it. -/
structure BearsGiven (entry : Palette.Entry) (n : BuildNode) (e : Element) : Prop where
  /-- There is an attribute for classes if and only if some are given. -/
  hasClasses : (e.attribute? "className").isSome = true ↔ givenClasses entry n ≠ []
  /-- The attribute stands for the classes, with one space between neighbours. -/
  classes : givenClasses entry n ≠ [] →
    e.textOf? "className" = some (" ".intercalate (givenClasses entry n)).toList
  /-- There is another attribute if and only if its name is one for attributes and a value other
  than null is given. -/
  others : ∀ name, name ≠ "className" → ((e.attribute? name).isSome = true ↔
    isAttributeName name = true ∧ ∃ value, givenProp? entry n name = some value ∧ value ≠ .null)
  /-- An attribute for a text stands for that text. -/
  texts : ∀ name s, name ≠ "className" → isAttributeName name = true →
    givenProp? entry n name = some (.string s) → e.textOf? name = some s.toList

/-- An element is what a shown node was written as. -/
structure ReadsBack (palette : Palette) (x : ShownNode) (y : Element.Entry) : Prop where
  /-- The element is inside that of the node around it. -/
  parent : y.parent = some x.parent
  /-- The tag is that of the component, and `div` for a key that the palette does not have. -/
  tag : y.element.tag = ((palette.lookup? x.node.key).map Palette.Entry.tag).getD "div"
  /-- No two attributes have the same name. -/
  nodup : (y.element.attributes.map Attribute.name).Nodup
  /-- The attributes are those that the component and the node give. -/
  given : ∀ entry, palette.lookup? x.node.key = some entry → BearsGiven entry x.node y.element
  /-- A placeholder has its key as the only attribute. -/
  unresolved : palette.lookup? x.node.key = none →
    y.element.attributes.map Attribute.name = ["data-unresolved"] ∧
      y.element.textOf? "data-unresolved" = some x.node.key.toList

/-- The first element of a file is the wrapper and the others are the nodes that a plan shows; the
text around the wrapper depends only on the name of the component and on whether there is a
control. -/
structure PlanReadsBack (palette : Palette) (p : BuildPlan) (code : List Char) (w : Element.Entry)
    (rest : List Element.Entry) : Prop where
  /-- Nothing is around the wrapper. -/
  parent : w.parent = none
  /-- With a control the wrapper is a form, after the text for forms. -/
  form : HasControl palette p → w.element.tag = "form" ∧
    Text.slice 0 w.element.start code = Component.before (componentName p.name) (.form none)
  /-- Without one it is plain. -/
  plain : ¬ HasControl palette p → w.element.tag = "div" ∧
    Text.slice 0 w.element.start code = Component.before (componentName p.name) .plain
  /-- The text after the wrapper. -/
  afterwards : Text.slice w.element.stop (Text.byteLength code) code = Component.afterwards
  /-- The other elements are the nodes that are shown, in order. -/
  nodes : List.Forall₂ (ReadsBack palette) (shownNodes palette 0 1 p.root) rest

/-! ### Reading an attribute back -/

section ReadBack

variable {e : Element} {as : List View.Attribute}

/-- Where attributes have different names, each is found under its name. -/
theorem attribute?_of_mem {a : Attribute} (hnodup : (e.attributes.map Attribute.name).Nodup)
    (ha : a ∈ e.attributes) : e.attribute? a.name = some a := by
  unfold Element.attribute?
  generalize e.attributes = bs at hnodup ha
  induction bs with
  | nil => simp at ha
  | cons b bs ih =>
    obtain ⟨hnot, hnodup⟩ := List.nodup_cons.1 hnodup
    rcases List.mem_cons.1 ha with rfl | ha
    · simp
    · have hne : b.name ≠ a.name := fun heq => hnot (heq ▸ List.mem_map_of_mem ha)
      rw [List.find?_cons_of_neg (by simpa using hne)]
      exact ih hnodup ha

/-- An attribute with a text stands for that text where attributes have different names. -/
theorem textOf?_eq (hpairs : e.attributes.map Attribute.pair = as.map View.Attribute.pair)
    (hnodup : (as.map View.Attribute.name).Nodup) {name s : String}
    (h : View.Attribute.ofText name s ∈ as) : e.textOf? name = some s.toList := by
  rw [← attribute_names_eq hpairs] at hnodup
  have hmem : (name, some (literalValue s.toList)) ∈ e.attributes.map Attribute.pair := by
    rw [hpairs]
    exact List.mem_map_of_mem h
  obtain ⟨a, ha, heq⟩ := List.mem_map.1 hmem
  obtain ⟨rfl, hvalue⟩ : a.name = name ∧ a.value = some (literalValue s.toList) := by
    simpa [Attribute.pair] using heq
  simp [Element.textOf?, attribute?_of_mem hnodup ha, hvalue]

theorem isSome_attribute?_iff {name : String} :
    (e.attribute? name).isSome = true ↔ name ∈ e.attributes.map Attribute.name := by
  simp [Element.attribute?, List.find?_isSome]

end ReadBack

/-! ### Views of plans -/

section Views

variable {palette : Palette}

theorem readable_placeholder (key : String) : (placeholder key).Readable := by
  refine ⟨by decide, fun a ha => ?_, trivial, trivial⟩
  obtain rfl := List.mem_singleton.1 ha
  exact readable_ofText (by decide) (List.all_eq_true.1 rfl) key

mutual

/-- The view of a node can be read back if the tags of the palette can. -/
theorem readable_viewOf (htags : ∀ e ∈ palette.entries, isTagName e.tag.toList = true) :
    ∀ n : BuildNode, (viewOf palette n).Readable
  | ⟨key, props, tailwind, children⟩ => by
    rw [viewOf]
    split
    · exact readable_placeholder key
    · next entry hentry =>
      have htag := htags entry (List.mem_of_find?_eq_some hentry)
      exact ⟨htag, fun a ha => readable_of_mem_attributesOf ha,
        readable_viewsOfChildren htags children⟩

theorem readable_viewsOfChildren (htags : ∀ e ∈ palette.entries, isTagName e.tag.toList = true) :
    ∀ children, View.ReadableAll (viewsOfChildren palette children)
  | none => trivial
  | some cs => readable_viewsOf htags cs

theorem readable_viewsOf (htags : ∀ e ∈ palette.entries, isTagName e.tag.toList = true) :
    ∀ cs, View.ReadableAll (viewsOf palette cs)
  | [] => trivial
  | .text _ :: cs => ⟨trivial, readable_viewsOf htags cs⟩
  | .node n :: cs => ⟨readable_viewOf htags n, readable_viewsOf htags cs⟩

end

end Views

/-! ### Nodes of plans -/

section Nodes

variable {palette : Palette} {parent index : Nat}

/-- An element with the tag of a placeholder and the key of a node is what the node was written as,
if the palette does not have the key. -/
theorem readsBack_placeholder {n : BuildNode} {e : Element}
    (hnone : palette.lookup? n.key = none) (htag : e.tag = "div")
    (hattributes : e.attributes.map Attribute.pair =
      [View.Attribute.ofText "data-unresolved" n.key].map View.Attribute.pair)
    (children : List Nat) :
    ReadsBack palette ⟨n, parent⟩ ⟨e, some parent, children⟩ := by
  have hnames := attribute_names_eq hattributes
  have hnodup :
      ([View.Attribute.ofText "data-unresolved" n.key].map View.Attribute.name).Nodup := by
    simp
  exact {
    parent := rfl
    tag := by simp [hnone, htag]
    nodup := by
      rw [hnames]
      exact hnodup
    given := by simp [hnone]
    unresolved := fun _ => ⟨hnames, textOf?_eq hattributes hnodup List.mem_cons_self⟩ }

/-- An element with the attributes of a node has those that the component and the node give. -/
theorem bearsGiven_of_pairs {entry : Palette.Entry} {n : BuildNode} {e : Element}
    (hattributes : e.attributes.map Attribute.pair =
      (attributesOf entry n).map View.Attribute.pair) : BearsGiven entry n e := by
  have hnames := attribute_names_eq hattributes
  have hnodup := nodup_attributesOf entry n
  exact {
    hasClasses := by
      rw [isSome_attribute?_iff, hnames]
      exact className_mem_iff
    classes := fun hsome => textOf?_eq hattributes hnodup (classAttribute_mem hsome)
    others := fun name hother => by
      rw [isSome_attribute?_iff, hnames]
      exact name_mem_iff hother
    texts := fun name s hother hname hgiven =>
      textOf?_eq hattributes hnodup (propAttribute_mem hother hname hgiven rfl) }

/-- An element with the tag of a component and the attributes of a node is what the node was written
as. -/
theorem readsBack_entry {n : BuildNode} {e : Element} {entry : Palette.Entry}
    (hentry : palette.lookup? n.key = some entry) (htag : e.tag = entry.tag)
    (hattributes : e.attributes.map Attribute.pair =
      (attributesOf entry n).map View.Attribute.pair)
    (children : List Nat) : ReadsBack palette ⟨n, parent⟩ ⟨e, some parent, children⟩ where
  parent := rfl
  tag := by simp [hentry, htag]
  nodup := by
    rw [attribute_names_eq hattributes]
    exact nodup_attributesOf entry n
  given entry' hentry' := by
    obtain rfl : entry = entry' := by simpa [hentry] using hentry'
    exact bearsGiven_of_pairs hattributes
  unresolved := by simp [hentry]

/-- An element that shows a node is what the node was written as. -/
theorem readsBack_of_shows {n : BuildNode} {e : Element} (h : Shows [viewOf palette n] [e])
    (children : List Nat) : ReadsBack palette ⟨n, parent⟩ ⟨e, some parent, children⟩ := by
  obtain ⟨key, props, tailwind, below⟩ := n
  rw [viewOf] at h
  split at h
  · next hnone =>
    cases h with
    | element htag hattributes inside rest =>
      exact readsBack_placeholder hnone htag hattributes children
  · next entry hentry =>
    cases h with
    | element htag hattributes inside rest =>
      exact readsBack_entry hentry htag hattributes children

/-- The view of a node is one element, which is the first of those that show the view and others. -/
theorem shows_viewOf_cons (palette : Palette) {n : BuildNode} {vs : List View} {es : List Element}
    (h : Shows (viewOf palette n :: vs) es) :
    ∃ e fs, es = e :: fs ∧ Shows [viewOf palette n] [e] ∧ Shows vs fs := by
  have helement : ∃ tag as children, viewOf palette n = .element tag as children := by
    obtain ⟨key, props, tailwind, below⟩ := n
    rw [viewOf]
    split
    · exact ⟨_, _, _, rfl⟩
    · exact ⟨_, _, _, rfl⟩
  obtain ⟨tag, as, children, hview⟩ := helement
  rw [hview] at h ⊢
  cases h with
  | element htag hattributes inside rest hclosing =>
    exact ⟨_, _, rfl, .element htag hattributes inside .nil hclosing, rest⟩

mutual

/-- The entries of an element that shows a node are the nodes that are shown for it. -/
theorem forall₂_shownNodes : ∀ (n : BuildNode) (parent index : Nat) (e : Element),
    Shows [viewOf palette n] [e] → List.Forall₂ (ReadsBack palette)
      (shownNodes palette parent index n) (Element.entriesOfAll (some parent) index [e])
  | ⟨key, props, tailwind, children⟩, parent, index, e, h => by
    rw [shownNodes, Element.entriesOfAll_cons, Element.entriesOfAll_nil, List.append_nil]
    refine .cons (readsBack_of_shows h _) ?_
    rw [viewOf] at h
    split at h
    · next hnone =>
      have hcontains : palette.contains key = false := by simp [Palette.contains, hnone]
      cases h with
      | element htag hattributes inside rest =>
        have hempty : e.children = [] := by
          generalize e.children = es at inside
          cases inside with
          | text inside =>
            cases inside
            rfl
        simp [hcontains, hempty]
    · next entry hentry =>
      have hcontains : palette.contains key = true := by simp [Palette.contains, hentry]
      cases h with
      | element htag hattributes inside rest =>
        rw [if_pos hcontains]
        exact forall₂_shownBelow children index (index + 1) e.children inside

theorem forall₂_shownBelow : ∀ (children : Option (List (Content BuildNode))) (parent index : Nat)
    (es : List Element), Shows (viewsOfChildren palette children) es →
      List.Forall₂ (ReadsBack palette) (shownBelow palette parent index children)
        (Element.entriesOfAll (some parent) index es)
  | none, parent, index, es, h => by
    rw [viewsOfChildren] at h
    cases h
    simp [shownBelow]
  | some cs, parent, index, es, h => forall₂_shownAll cs parent index es h

theorem forall₂_shownAll : ∀ (cs : List (Content BuildNode)) (parent index : Nat)
    (es : List Element), Shows (viewsOf palette cs) es →
      List.Forall₂ (ReadsBack palette) (shownAll palette parent index cs)
        (Element.entriesOfAll (some parent) index es)
  | [], parent, index, es, h => by
    cases h
    simp [shownAll]
  | .text s :: cs, parent, index, es, h => by
    cases h with
    | text rest => exact forall₂_shownAll cs parent index es rest
  | .node n :: cs, parent, index, es, h => by
    obtain ⟨e, fs, rfl, hfirst, hrest⟩ := shows_viewOf_cons palette h
    have hnodes := forall₂_shownNodes n parent index e hfirst
    -- The positions go on after as many elements as there are nodes.
    have hsize : (shownNodes palette parent index n).length = e.size := by
      rw [hnodes.length_eq, Element.length_entriesOfAll, Element.walkAll_cons, Element.size_eq]
      simp
    have hsplit : Element.entriesOfAll (some parent) index (e :: fs) =
        Element.entriesOfAll (some parent) index [e] ++
          Element.entriesOfAll (some parent) (index + e.size) fs := by
      simp
    rw [shownAll, hsplit, hsize]
    exact List.rel_append hnodes (forall₂_shownAll cs parent (index + e.size) fs hrest)

end

end Nodes

/-! ### Files of plans -/

/-- A palette whose components need no imports gives a plan none. -/
theorem neededImports_eq_nil {palette : Palette} (h : ∀ e ∈ palette.entries, e.importLine = none)
    (p : BuildPlan) : p.neededImports palette = [] := by
  have hnone :
      (p.componentKeys.filterMap fun k => (palette.lookup? k).bind (·.importLine)) = [] := by
    rw [List.filterMap_eq_nil_iff]
    intro k _
    cases hentry : palette.lookup? k with
    | none => rfl
    | some e => exact h e (List.mem_of_find?_eq_some hentry)
  rw [BuildPlan.neededImports, Palette.importsOf, hnone]
  rfl

theorem isWordChar_of_mem_name (palette : Palette) (p : BuildPlan) :
    ∀ c ∈ (Component.ofPlan palette p).name.toList, isWordChar c = true := by
  rw [name_ofPlan]
  exact isWordChar_of_mem_componentName

theorem isControlKey_iff {palette : Palette} {key : String} :
    isControlKey palette key = true ↔ NamesControl palette key := by
  simp [isControlKey, NamesControl, controlTags, Option.any_eq_true]

/-- The wrapper of a plan is a form if and only if there is a control in it. -/
theorem wrapperOfPlan_eq (palette : Palette) (p : BuildPlan) :
    (HasControl palette p → Wrapper.ofPlan palette p = .form none) ∧
      (¬ HasControl palette p → Wrapper.ofPlan palette p = .plain) := by
  have hiff : p.root.keys.any (isControlKey palette) = true ↔ HasControl palette p := by
    simp [HasControl, BuildNode.keys, List.any_map, isControlKey_iff]
  rw [Wrapper.ofPlan, ← hiff]
  exact ⟨fun h => if_pos h, fun h => if_neg h⟩

/-- The file of a plan is read back: its elements are the wrapper and the nodes that are shown. -/
theorem scan_ofPlan {palette : Palette} (himports : ∀ e ∈ palette.entries, e.importLine = none)
    (htags : ∀ e ∈ palette.entries, isTagName e.tag.toList = true) (directory : String)
    (p : BuildPlan) : ∃ es w rest,
      scan (ComponentFile.ofPlan palette directory p).code.toList = .ok es ∧
      Element.entriesOfAll none 0 es = w :: rest ∧
      PlanReadsBack palette p (ComponentFile.ofPlan palette directory p).code.toList w rest := by
  obtain ⟨el, text, hscan, hshows, htext, hstart, hstop⟩ :=
    scan_source (neededImports_eq_nil himports p) (isWordChar_of_mem_name palette p)
      (readable_viewOf htags p.root)
  rw [name_ofPlan, wrapper_ofPlan] at htext hstart
  obtain ⟨hbefore, hafter⟩ := Text.slices_around htext hstart hstop
  rw [wrapper_ofPlan] at hshows
  rw [code_ofPlan]
  -- The wrapper is the only outermost element, and the root of the plan is all that is inside it.
  cases hshows with
  | element htag hattributes inside rest =>
    obtain ⟨e, fs, hchildren, hfirst, hrest⟩ := shows_viewOf_cons palette inside
    cases hrest
    obtain ⟨hform, hplain⟩ := wrapperOfPlan_eq palette p
    refine ⟨[el], _, _, hscan, Element.entriesOfAll_cons none 0 el [], rfl, fun h => ?_,
      fun h => ?_, hafter, ?_⟩
    · rw [hform h] at htag hbefore
      exact ⟨htag, hbefore⟩
    · rw [hplain h] at htag hbefore
      exact ⟨htag, hbefore⟩
    · rw [hchildren]
      simpa using forall₂_shownNodes p.root 0 1 e hfirst

/-- A palette with one component. -/
def plainPalette : Palette :=
  ⟨[{ key := "box"
      tag := "p"
      defaultProps := some (Dict.ofList [("className", .string "z")])
      tailwind := some "m-1" }], by decide⟩

/-- A plan with an unknown key, and with texts that would end a tag or open braces. -/
def hostilePlan : BuildPlan :=
  { name := "a\x7b<b"
    root := {
      key := "box"
      props := some (Dict.ofList [("title", .string "\">\x7b'"), ("n", .array [.int 1])])
      tailwind := some "x\"y"
      children := some [.text "</p>\x7b", .node { key := "<i>" }] } }

/-- The plan with hostile texts is read back. -/
theorem scan_ofPlan_hostile :
    (∀ e ∈ plainPalette.entries, e.importLine = none) ∧
      (∀ e ∈ plainPalette.entries, isTagName e.tag.toList = true) ∧ ∃ es w rest,
        scan (ComponentFile.ofPlan plainPalette "out" hostilePlan).code.toList = .ok es ∧
        Element.entriesOfAll none 0 es = w :: rest ∧
        PlanReadsBack plainPalette hostilePlan
          (ComponentFile.ofPlan plainPalette "out" hostilePlan).code.toList w rest := by
  have himports : ∀ e ∈ plainPalette.entries, e.importLine = none := by decide
  have htags : ∀ e ∈ plainPalette.entries, isTagName e.tag.toList = true := by decide
  exact ⟨himports, htags, scan_ofPlan himports htags "out" hostilePlan⟩

end Mockup.Jsx
