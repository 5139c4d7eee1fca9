import Mockup.Palette.Builtin
import Mockup.Proofs.Jsx.PlanRoundTrip
import Mockup.Proofs.Plan.Props

/-!
# The attributes of a component from a mockup

The component of a plan with few props has few attributes. What holds of the tag and the attributes
of each element in a view holds of the elements that are read where the view was written.

## Main results

* `Shows.exists_of_mem_walkAll`: elements that show views are as the elements of the views are.
* `all_viewOf`: what holds of every component of a plan holds of the elements of its view.
* `drawn_of_mem_attributesOf`: few props become few attributes.
* `drawn_ofPlan`: the elements of a component whose plan has few props.
-/

namespace Mockup

namespace Jsx

/-! ### Elements of views -/

/-- `P` holds of the tag and the attributes of every element in a view. -/
inductive View.All (P : String → List View.Attribute → Prop) : View → Prop
  | text {s : String} : All P (.text s)
  | element {tag : String} {attributes : List View.Attribute} {children : List View}
    (here : P tag attributes) (inside : ∀ v ∈ children, v.All P) :
    All P (.element tag attributes children)

section Elements

variable {P : String → List View.Attribute → Prop}

/-- The elements that show views have the tags and the attributes of the elements in the views. -/
theorem Shows.exists_of_mem_walkAll {vs : List View} {es : List Element} (h : Shows vs es)
    (hall : ∀ v ∈ vs, v.All P) : ∀ e ∈ Element.walkAll es, ∃ attributes, P e.tag attributes ∧
      e.attributes.map Attribute.pair = attributes.map View.Attribute.pair := by
  induction h with
  | nil =>
    intro e he
    simp at he
  | text rest ih => exact ih (List.forall_mem_cons.1 hall).2
  | element htag hattributes inside rest hclosing ihInside ihRest =>
    obtain ⟨hfirst, hrest⟩ := List.forall_mem_cons.1 hall
    cases hfirst with
    | element here hinside =>
      -- The element is the one that shows the view, or lies inside it or after it.
      intro e he
      rw [Element.walkAll_cons] at he
      rcases List.mem_cons.1 he with rfl | he
      · exact ⟨_, htag ▸ here, hattributes⟩
      rcases List.mem_append.1 he with he | he
      · exact ihInside hinside e he
      · exact ihRest hrest e he

/-- `P` holds of the tag and the attributes of a component of a plan, which is in the palette. -/
def Written (palette : Palette) (P : String → List View.Attribute → Prop) (m : BuildNode) : Prop :=
  ∃ entry, palette.lookup? m.key = some entry ∧ P entry.tag (attributesOf entry m)

mutual

/-- What holds of every component of a plan holds of every element of its view. -/
theorem all_viewOf (palette : Palette) : ∀ n : BuildNode, (∀ m ∈ n.walk, Written palette P m) →
    (viewOf palette n).All P
  | ⟨key, props, tailwind, children⟩, h => by
    rw [BuildNode.walk] at h
    obtain ⟨⟨entry, hentry, hhere⟩, hbelow⟩ := List.forall_mem_cons.1 h
    simp only [viewOf, hentry]
    exact .element hhere (all_viewsOfChildren palette children hbelow)

theorem all_viewsOfChildren (palette : Palette) : ∀ children,
    (∀ m ∈ BuildNode.walkChildren children, Written palette P m) →
      ∀ v ∈ viewsOfChildren palette children, v.All P
  | none, _, v, hv => by cases hv
  | some cs, h, v, hv => all_viewsOf palette cs h v hv

theorem all_viewsOf (palette : Palette) : ∀ cs,
    (∀ m ∈ BuildNode.walkAll cs, Written palette P m) → ∀ v ∈ viewsOf palette cs, v.All P
  | [], _, v, hv => by cases hv
  | .text s :: cs, h, v, hv => by
    rcases List.mem_cons.1 hv with rfl | hv
    · exact .text
    · exact all_viewsOf palette cs h v hv
  | .node n :: cs, h, v, hv => by
    rw [BuildNode.walkAll, List.forall_mem_append] at h
    rcases List.mem_cons.1 hv with rfl | hv
    · exact all_viewOf palette n h.1
    · exact all_viewsOf palette cs h.2 v hv

end

end Elements

/-! ### Attributes of components -/

/-- The names of the attributes in the component of a mockup. -/
def drawnAttributeNames : List String := "className" :: drawnPropNames

/-- An attribute in the component of a mockup: a text, which is an address from `A` if its name is
`src`. -/
def View.Attribute.Drawn (A : String → Prop) (a : View.Attribute) : Prop :=
  ∃ name s, a = .ofText name s ∧ name ∈ drawnAttributeNames ∧ (name = "src" → A s)

section Attributes

variable {A : String → Prop} {entry : Palette.Entry} {n : BuildNode}

/-- A component whose props are texts with few names has only such attributes, and one for its
classes. -/
theorem drawn_of_mem_attributesOf
    (hentry : ∀ p ∈ (entry.defaultProps.getD .empty).entries, DrawnProp A p.1 p.2)
    (hnode : ∀ p ∈ (n.props.getD .empty).entries, DrawnProp A p.1 p.2) :
    ∀ a ∈ attributesOf entry n, a.Drawn A := by
  intro a ha
  rcases mem_attributesOf ha with ⟨-, rfl⟩ | ⟨name, value, hmem, -, hvalue⟩
  · exact ⟨_, _, rfl, List.mem_cons_self, fun h => absurd h (by decide)⟩
  · have hprop : DrawnProp A name value := by
      rcases Dict.mem_or_mem_of_mem_override (List.mem_filter.1 hmem).1 with h | h
      · exact hentry _ h
      · exact hnode _ h
    obtain ⟨hname, s, rfl, hsrc⟩ := hprop
    cases hvalue
    exact ⟨name, s, rfl, List.mem_cons_of_mem _ hname, hsrc⟩

end Attributes

/-! ### Elements of components -/

/-- An element in the component of a mockup, as it is read. -/
structure Element.Drawn (palette : Palette) (A : String → Prop) (e : Element) : Prop where
  /-- The tag is that of a component of the palette. -/
  tag : ∃ entry ∈ palette.entries, e.tag = entry.tag
  /-- The attributes have few names. -/
  names : ∀ a ∈ e.attributes, a.name ∈ drawnAttributeNames
  /-- The value of every attribute is a text that can be told without running anything. -/
  texts : ∀ a ∈ e.attributes, ∃ v s, a.value = some v ∧ v.text? = some s
  /-- The text of `src` is an address from `A` as it stands. -/
  addresses : ∀ a ∈ e.attributes, a.name = "src" →
    ∃ v address, a.value = some v ∧ v.text? = some address.toList ∧ A address

/-- Attributes that are read have the names and the texts of those that were written. -/
theorem drawn_of_pairs {palette : Palette} {A : String → Prop} {e : Element}
    {attributes : List View.Attribute} (htag : ∃ entry ∈ palette.entries, e.tag = entry.tag)
    (hpairs : e.attributes.map Attribute.pair = attributes.map View.Attribute.pair)
    (hall : ∀ a ∈ attributes, a.Drawn A) : e.Drawn palette A := by
  have hread : ∀ a ∈ e.attributes, a.name ∈ drawnAttributeNames ∧
      ∃ s : String, a.value = some (literalValue s.toList) ∧ (a.name = "src" → A s) := by
    intro a ha
    have hmem : a.pair ∈ attributes.map View.Attribute.pair := hpairs ▸ List.mem_map_of_mem ha
    obtain ⟨b, hb, heq⟩ := List.mem_map.1 hmem
    obtain ⟨name, s, rfl, hname, hsrc⟩ := hall b hb
    obtain ⟨rfl, hvalue⟩ := Prod.mk.inj heq
    exact ⟨hname, s, hvalue.symm, hsrc⟩
  refine ⟨htag, fun a ha => (hread a ha).1, fun a ha => ?_, fun a ha hname => ?_⟩
  · obtain ⟨-, s, hvalue, -⟩ := hread a ha
    exact ⟨_, _, hvalue, text?_literalValue _⟩
  · obtain ⟨-, s, hvalue, hsrc⟩ := hread a ha
    exact ⟨_, s, hvalue, text?_literalValue _, hsrc hname⟩

/-- The file of a plan is read as one element, the wrapper, and what is in it shows the plan. -/
theorem exists_shows_ofPlan {palette : Palette}
    (himports : ∀ e ∈ palette.entries, e.importLine = none)
    (htags : ∀ e ∈ palette.entries, isTagName e.tag.toList = true) (directory : String)
    (p : BuildPlan) : ∃ el, scan (ComponentFile.ofPlan palette directory p).code.toList = .ok [el] ∧
      el.tag = (Wrapper.ofPlan palette p).tag ∧ Shows [viewOf palette p.root] el.children := by
  obtain ⟨el, -, hscan, hshows, -⟩ := scan_source (neededImports_eq_nil himports p)
    (isWordChar_of_mem_name palette p) (readable_viewOf htags p.root)
  rw [code_ofPlan]
  cases hshows with
  | element htag hattributes inside rest => exact ⟨el, hscan, htag, inside⟩

/-- The elements of the file of a plan are the wrapper and elements with a tag of the palette and
few attributes, if the plan has few props and only components of the palette. -/
theorem drawn_ofPlan {palette : Palette} {A : String → Prop}
    (himports : ∀ e ∈ palette.entries, e.importLine = none)
    (htags : ∀ e ∈ palette.entries, isTagName e.tag.toList = true)
    (hprops : ∀ e ∈ palette.entries, ∀ p ∈ (e.defaultProps.getD .empty).entries,
      DrawnProp A p.1 p.2)
    {p : BuildPlan} (hplan : ∀ m ∈ p.root.walk, palette.contains m.key = true ∧
      ∀ q ∈ (m.props.getD .empty).entries, DrawnProp A q.1 q.2) (directory : String) :
    ∃ el, scan (ComponentFile.ofPlan palette directory p).code.toList = .ok [el] ∧
      el.tag = (Wrapper.ofPlan palette p).tag ∧
      ∀ e ∈ Element.walkAll el.children, e.Drawn palette A := by
  obtain ⟨el, hscan, htag, hshows⟩ := exists_shows_ofPlan himports htags directory p
  -- What holds of the components of the plan goes on to its view, and from there to the elements.
  have hview : (viewOf palette p.root).All fun tag attributes =>
      (∃ entry ∈ palette.entries, tag = entry.tag) ∧ ∀ a ∈ attributes, a.Drawn A := by
    refine all_viewOf palette p.root fun m hm => ?_
    obtain ⟨hcontains, hnode⟩ := hplan m hm
    obtain ⟨entry, hentry⟩ := Option.isSome_iff_exists.1 hcontains
    have hmem := List.mem_of_find?_eq_some hentry
    exact ⟨entry, hentry, ⟨entry, hmem, rfl⟩, drawn_of_mem_attributesOf (hprops entry hmem) hnode⟩
  refine ⟨el, hscan, htag, fun e he => ?_⟩
  obtain ⟨attributes, ⟨hentry, hall⟩, hpairs⟩ := hshows.exists_of_mem_walkAll
    (fun v hv => List.mem_singleton.1 hv ▸ hview) e he
  exact drawn_of_pairs hentry hpairs hall

end Jsx

/-! ### The built-in palette -/

namespace Palette

/-- A prop with the name `type` whose value is a text. -/
def isTypeText (p : String × Json) : Bool :=
  p.1 == "type" && match p.2 with
    | .string _ => true
    | _ => false

/-- The built-in components have no props of their own but texts for `type`. -/
theorem drawnProp_builtin (A : String → Prop) : ∀ e ∈ builtin.entries,
    ∀ p ∈ (e.defaultProps.getD .empty).entries, DrawnProp A p.1 p.2 := by
  have hall : (builtinEntries.all fun e =>
    (e.defaultProps.getD .empty).entries.all isTypeText) = true := rfl
  intro e he p hp
  have htype := List.all_eq_true.1 (List.all_eq_true.1 hall e he) p hp
  obtain ⟨name, value⟩ := p
  rw [isTypeText, Bool.and_eq_true, beq_iff_eq] at htype
  obtain ⟨rfl, hvalue⟩ := htype
  split at hvalue
  · next s hs =>
    obtain rfl : value = .string s := hs
    exact drawnProp_string "type" (by decide) (by decide) s
  · cases hvalue

theorem importLine_builtin : ∀ e ∈ builtin.entries, e.importLine = none := by
  have hall : (builtinEntries.all fun e => e.importLine.isNone) = true := rfl
  intro e he
  exact Option.isNone_iff_eq_none.1 (List.all_eq_true.1 hall e he)

theorem isTagName_builtin : ∀ e ∈ builtin.entries, Jsx.isTagName e.tag.toList = true := by
  have hall : (builtinEntries.all fun e => Jsx.isTagName e.tag.toList) = true := rfl
  exact List.all_eq_true.1 hall

theorem contains_fallbackKey_builtin : builtin.contains fallbackKey = true := rfl

end Palette

end Mockup
