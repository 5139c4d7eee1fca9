import Mockup.Proofs.Jsx.PlanAttributes
import Mockup.Proofs.Plan.Controls

/-!
# Controls of a component file

What is written for a plan is read as an element for each component, in pre-order, with the
attributes of the component. So the names of the elements are those of the controls of the plan.

* `e.IsOf palette m` — the element `e` has the tag and the attributes of the component `m`.
* `e.controlName?` — the name under which the value of the element `e` is sent.

## Main results

* `forall₂_walk`: the elements that show a plan are those of its components, in order.
* `controlName?_of_isOf`: an element has the name of its component.
* `filterMap_controlName?`: the names of the elements that show a plan.
* `exists_controlNames_ofPlan`: the names in the file of a plan.
-/

namespace Mockup

namespace Jsx

/-! ### Elements of components -/

/-- An element has the tag and the attributes of a component of the palette. -/
def Element.IsOf (palette : Palette) (m : BuildNode) (e : Element) : Prop :=
  ∃ entry, palette.lookup? m.key = some entry ∧ e.tag = entry.tag ∧
    e.attributes.map Attribute.pair = (attributesOf entry m).map View.Attribute.pair

section Elements

variable {palette : Palette}

mutual

/-- The elements that show a tree of components are those of the components, in order, if the
palette has all of them. -/
theorem forall₂_walk : ∀ (n : BuildNode) (e : Element), Shows [viewOf palette n] [e] →
    (∀ m ∈ n.walk, palette.contains m.key = true) →
      List.Forall₂ (fun m e => e.IsOf palette m) n.walk (Element.walkAll [e])
  | ⟨key, props, tailwind, children⟩, e, h, hkeys => by
    rw [BuildNode.walk, List.forall_mem_cons] at hkeys
    -- The palette has the key, so the view is no placeholder.
    obtain ⟨entry, hentry⟩ := Option.isSome_iff_exists.1 hkeys.1
    rw [viewOf, hentry] at h
    rw [BuildNode.walk, Element.walkAll_cons, Element.walkAll_nil, List.append_nil]
    cases h with
    | element htag hattributes inside rest =>
      exact .cons ⟨entry, hentry, htag, hattributes⟩
        (forall₂_walkChildren children e.children inside hkeys.2)

theorem forall₂_walkChildren : ∀ (children : Option (List (Content BuildNode)))
    (es : List Element), Shows (viewsOfChildren palette children) es →
      (∀ m ∈ BuildNode.walkChildren children, palette.contains m.key = true) →
        List.Forall₂ (fun m e => e.IsOf palette m) (BuildNode.walkChildren children)
          (Element.walkAll es)
  | none, es, h, _ => by
    rw [viewsOfChildren] at h
    cases h
    rw [BuildNode.walkChildren, Element.walkAll_nil]
    exact .nil
  | some cs, es, h, hkeys => forall₂_walkAll cs es h hkeys

theorem forall₂_walkAll : ∀ (cs : List (Content BuildNode)) (es : List Element),
    Shows (viewsOf palette cs) es →
      (∀ m ∈ BuildNode.walkAll cs, palette.contains m.key = true) →
        List.Forall₂ (fun m e => e.IsOf palette m) (BuildNode.walkAll cs) (Element.walkAll es)
  | [], es, h, _ => by
    cases h
    rw [BuildNode.walkAll, Element.walkAll_nil]
    exact .nil
  | .text s :: cs, es, h, hkeys => by
    cases h with
    | text rest => exact forall₂_walkAll cs es rest hkeys
  | .node n :: cs, es, h, hkeys => by
    rw [BuildNode.walkAll, List.forall_mem_append] at hkeys
    obtain ⟨e, fs, rfl, hfirst, hrest⟩ := shows_viewOf_cons palette h
    rw [BuildNode.walkAll, ← List.singleton_append, Element.walkAll_append]
    exact List.rel_append (forall₂_walk n e hfirst hkeys.1) (forall₂_walkAll cs fs hrest hkeys.2)

end

end Elements

/-! ### Names -/

/-- The name under which the value of an element is sent: the text of its attribute `name`. -/
def Element.controlName? (e : Element) : Option String :=
  (e.textOf? "name").map String.ofList

section Names

variable {palette : Palette} {entry : Palette.Entry} {n : BuildNode}

/-- The element of a component has the name of the component, if that has one. -/
theorem controlName?_of_isOf
    (hentries : ∀ e ∈ palette.entries, (e.defaultProps.getD .empty).get? "name" = none)
    (hprops : ∀ p ∈ (n.props.getD .empty).entries, ∃ s, p.2 = .string s) {e : Element}
    (h : e.IsOf palette n) : e.controlName? = n.textProp? "name" := by
  obtain ⟨entry, hentry, -, hpairs⟩ := h
  -- The entry does not have the prop, so that of the node is given.
  have hgiven : givenProp? entry n "name" = (n.props.getD .empty).get? "name" := by
    rw [← get?_propsOf, propsOf, Dict.get?_override,
      hentries entry (List.mem_of_find?_eq_some hentry), Option.or_none]
  have hbears := bearsGiven_of_pairs hpairs
  rw [Element.controlName?, BuildNode.textProp?]
  cases hvalue : (n.props.getD .empty).get? "name" with
  | some value =>
    obtain ⟨s, rfl⟩ : ∃ s, value = .string s := hprops _ (Dict.mem_entries_iff.2 hvalue)
    rw [hbears.texts "name" s (by decide) rfl (hgiven.trans hvalue), Option.map_some,
      String.ofList_toList]
  | none =>
    have hnone : e.attribute? "name" = none := by
      rw [← Option.not_isSome_iff_eq_none, hbears.others "name" (by decide), hgiven, hvalue]
      rintro ⟨-, value, hvalue, -⟩
      cases hvalue
    rw [Element.textOf?, hnone]
    rfl

/-- The names of the elements that show a plan are those of its controls, in order. -/
theorem filterMap_controlName?
    (hentries : ∀ e ∈ palette.entries, (e.defaultProps.getD .empty).get? "name" = none)
    {ms : List BuildNode} {es : List Element}
    (hprops : ∀ m ∈ ms, ∀ p ∈ (m.props.getD .empty).entries, ∃ s, p.2 = .string s)
    (h : List.Forall₂ (fun m e => e.IsOf palette m) ms es) :
    es.filterMap Element.controlName? = (ms.filterMap BuildNode.control?).map Prod.snd := by
  have hname (m : BuildNode) : m.control?.map Prod.snd = m.textProp? "name" := by
    rw [BuildNode.control?, Option.map_map]
    exact Option.map_id'
  rw [List.map_filterMap, funext hname]
  induction h with
  | nil => rfl
  | cons hhead _ ih =>
    obtain ⟨hm, hms⟩ := List.forall_mem_cons.1 hprops
    rw [List.filterMap_cons, List.filterMap_cons, ih hms, controlName?_of_isOf hentries hm hhead]

end Names

/-! ### Files -/

/-- A plan with a component whose key names a control is wrapped in a form. -/
theorem tag_wrapperOfPlan_of_key {palette : Palette} {p : BuildPlan} {key : String}
    (hmem : key ∈ p.root.keys) (hkey : isControlKey palette key = true) :
    (Wrapper.ofPlan palette p).tag = "form" := by
  rw [Wrapper.ofPlan, if_pos (List.any_eq_true.2 ⟨key, hmem, hkey⟩)]
  rfl

/-- The names in the file of a plan are those of its controls, if its props are texts and all its
components are in the palette. -/
theorem exists_controlNames_ofPlan {palette : Palette}
    (himports : ∀ e ∈ palette.entries, e.importLine = none)
    (htags : ∀ e ∈ palette.entries, isTagName e.tag.toList = true)
    (hentries : ∀ e ∈ palette.entries, (e.defaultProps.getD .empty).get? "name" = none)
    {p : BuildPlan} (hplan : ∀ m ∈ p.root.walk, palette.contains m.key = true ∧
      ∀ q ∈ (m.props.getD .empty).entries, ∃ s, q.2 = .string s) (directory : String) :
    ∃ el, scan (ComponentFile.ofPlan palette directory p).code.toList = .ok [el] ∧
      el.tag = (Wrapper.ofPlan palette p).tag ∧
      (Element.walkAll el.children).filterMap Element.controlName? =
        p.root.controls.map Prod.snd := by
  obtain ⟨el, hscan, htag, hshows⟩ := exists_shows_ofPlan himports htags directory p
  -- The view of the root is one element, which is all that is inside the wrapper.
  obtain ⟨e, fs, hchildren, hroot, hrest⟩ := shows_viewOf_cons palette hshows
  cases hrest
  refine ⟨el, hscan, htag, ?_⟩
  rw [hchildren]
  exact filterMap_controlName? hentries (fun m hm => (hplan m hm).2)
    (forall₂_walk p.root e hroot fun m hm => (hplan m hm).1)

end Jsx

end Mockup
