import Mockup.Jsx.OfPlan
import Mockup.Proofs.Jsx.Component
import Mockup.Proofs.Jsx.Name
import Mockup.Proofs.Tailwind.Edits

/-!
# The attributes of a node

A node of a plan and the component of its key both give props and classes. A prop of the node is in
the place of that of the component, and the classes of both are put together with those in the prop
for classes, each where it comes first. From these the attributes are made.

* `givenProp? entry n name` — the value that is given for a prop.
* `givenClasses entry n` — the classes that are given.

## Main results

* `mem_plainProps_iff`: the props of a node but for its classes.
* `tokens_classesOf`: the classes of a node.
* `className_mem_iff`, `name_mem_iff`: which attributes a node has.
* `nodup_attributesOf`: no two of them have the same name.
* `readable_of_mem_attributesOf`: each of them can be read back.
-/

namespace Mockup.Jsx

open Tailwind (ClassList)

/-! ### What a component and a node give -/

/-- The value for a prop: that of the node, or else that of the component. -/
def givenProp? (entry : Palette.Entry) (n : BuildNode) (name : String) : Option Json :=
  (n.props.bind (·.get? name)).or (entry.defaultProps.bind (·.get? name))

/-- The text of the prop for classes, if it is a text. -/
def givenClassText? (entry : Palette.Entry) (n : BuildNode) : Option String :=
  match givenProp? entry n "className" with
  | some (.string s) => some s
  | _ => none

/-- The classes: the words of the component, of the node and of the prop for classes, each where it
comes first. -/
def givenClasses (entry : Palette.Entry) (n : BuildNode) : List String :=
  ([entry.tailwind, n.tailwind, givenClassText? entry n].flatMap fun given =>
    given.elim [] Text.words).eraseDups

section Given

variable {entry : Palette.Entry} {n : BuildNode}

theorem get?_propsOf (entry : Palette.Entry) (n : BuildNode) (name : String) :
    (propsOf entry n).get? name = givenProp? entry n name := by
  rw [propsOf, Dict.get?_override, givenProp?]
  cases n.props <;> cases entry.defaultProps <;> rfl

/-- The props of a node but for its classes are those that are given. -/
theorem mem_plainProps_iff {name : String} {value : Json} :
    (name, value) ∈ plainProps entry n ↔
      name ≠ "className" ∧ givenProp? entry n name = some value := by
  rw [plainProps, Dict.mem_entries_iff, Dict.get?_erase, get?_propsOf]
  simp

theorem words_classProp (entry : Palette.Entry) (n : BuildNode) :
    Text.words (classProp (propsOf entry n)) = (givenClassText? entry n).elim [] Text.words := by
  rw [classProp, givenClassText?, get?_propsOf]
  cases givenProp? entry n "className" with
  | none => rfl
  | some value => cases value <;> rfl

/-- The classes of a node are those that are given. -/
theorem tokens_classesOf (entry : Palette.Entry) (n : BuildNode) :
    (classesOf entry n).tokens = givenClasses entry n := by
  have hwords (given : Option String) :
      Text.words (given.getD "") = given.elim [] Text.words := by
    cases given <;> rfl
  -- Classes that are added in turn are those of all texts added at once.
  rw [classesOf, ClassList.add, ClassList.add, ClassList.parse, ClassList.ofTokens,
    ← ClassList.pushAll_append, ← ClassList.pushAll_append, ← ClassList.ofTokens,
    ClassList.tokens_ofTokens_eq, hwords, hwords, words_classProp, givenClasses]
  simp

/-- Classes that are given twice come where they come first. -/
example :
    givenClasses { key := "box", tag := "p", tailwind := some "m-1 p-2" }
      { key := "box"
        tailwind := some " p-2  x"
        props := some (Dict.ofList [("className", .string "y m-1")]) } =
      ["m-1", "p-2", "x", "y"] := by
  decide +kernel

theorem text_classesOf (entry : Palette.Entry) (n : BuildNode) :
    (classesOf entry n).text = " ".intercalate (givenClasses entry n) := by
  rw [ClassList.text, tokens_classesOf]

end Given

/-! ### Attributes -/

section Attributes

variable {entry : Palette.Entry} {n : BuildNode} {name : String} {value : Json}
  {a : View.Attribute}

/-- The attribute of a prop has the name of the prop, and code in it is balanced. -/
theorem readable_attributeOf (hname : isAttributeName name = true)
    (h : attributeOf name value = some a) : a.name = name ∧ a.Readable := by
  have readable (v : View.Value) (hv : ∀ s, v = .code s → Balanced s.toList) :
      View.Attribute.Readable ⟨name, v⟩ :=
    ⟨ne_nil_of_isAttributeName hname, isAttributeChar_of_isAttributeName hname, hv⟩
  have code (j : Json) : View.Attribute.Readable ⟨name, .code j.compact⟩ := by
    refine readable _ fun s hs => ?_
    cases hs
    rw [Json.compact, String.toList_ofList]
    exact balanced_compactChars j
  -- A null has no attribute; texts and flags hold no code, and other values are written as JSON.
  unfold attributeOf at h
  split at h
  · contradiction
  · cases h
    exact ⟨rfl, readable _ (by simp)⟩
  · cases h
    exact ⟨rfl, readable _ (by simp)⟩
  · cases h
    exact ⟨rfl, code _⟩

/-- Every value but null becomes an attribute. -/
theorem exists_attributeOf (name : String) (h : value ≠ .null) :
    ∃ a, attributeOf name value = some a := by
  unfold attributeOf
  split
  · contradiction
  · exact ⟨_, rfl⟩
  · exact ⟨_, rfl⟩
  · exact ⟨_, rfl⟩

/-- The attribute for classes stands for those that are given, if there are some. -/
theorem classAttribute_classesOf (entry : Palette.Entry) (n : BuildNode) :
    View.classAttribute (classesOf entry n).text =
      if givenClasses entry n = [] then []
      else [.ofText "className" (" ".intercalate (givenClasses entry n))] := by
  have hwords : ∀ t ∈ givenClasses entry n, Text.isAllBlank t = false := by
    intro t ht
    obtain ⟨given, -, ht⟩ := List.mem_flatMap.1 (List.mem_eraseDups.1 ht)
    cases given with
    | none => cases ht
    | some value => exact ClassList.isAllBlank_of_mem_words ht
  rw [View.classAttribute, text_classesOf, ClassList.isAllBlank_intercalate hwords]
  simp only [List.isEmpty_iff]

/-- An attribute of a node is that for its classes or that of a prop with an attribute name. -/
theorem mem_attributesOf (h : a ∈ attributesOf entry n) :
    (givenClasses entry n ≠ [] ∧ a = .ofText "className" (" ".intercalate (givenClasses entry n))) ∨
      ∃ name value, (name, value) ∈ plainProps entry n ∧ isAttributeName name = true ∧
        attributeOf name value = some a := by
  rw [attributesOf, classAttribute_classesOf, List.mem_append] at h
  rcases h with h | h
  · split at h
    · cases h
    · next hsome => exact .inl ⟨hsome, List.mem_singleton.1 h⟩
  · obtain ⟨⟨name, value⟩, hmem, ha⟩ := List.mem_filterMap.1 h
    simp only at ha
    split at ha
    · next hname => exact .inr ⟨name, value, hmem, hname, ha⟩
    · contradiction

/-- The attributes of a node can be read back. -/
theorem readable_of_mem_attributesOf (h : a ∈ attributesOf entry n) : a.Readable := by
  rcases mem_attributesOf h with ⟨-, rfl⟩ | ⟨name, value, -, hname, ha⟩
  · exact readable_ofText (by decide) (List.all_eq_true.1 rfl) _
  · exact (readable_attributeOf hname ha).2

/-! ### Names of attributes -/

/-- The props of a node but for its classes have different names, and none is that for classes. -/
theorem nodup_plainProps (entry : Palette.Entry) (n : BuildNode) :
    ("className" :: (plainProps entry n).map Prod.fst).Nodup := by
  have hsorted := ((propsOf entry n).erase "className").sorted
  have hnodup : ((plainProps entry n).map Prod.fst).Nodup := by
    rw [List.Nodup, List.pairwise_map]
    exact hsorted.imp fun hlt => Std.ne_of_lt hlt
  refine List.nodup_cons.2 ⟨fun hmem => ?_, hnodup⟩
  obtain ⟨⟨name, value⟩, hprop, hname⟩ := List.mem_map.1 hmem
  exact (mem_plainProps_iff.1 hprop).1 hname

/-- The attributes of props have the names of some of them, in order. -/
theorem names_sublist (props : List (String × Json)) :
    List.Sublist ((props.filterMap fun (name, value) =>
      if isAttributeName name then attributeOf name value else none).map View.Attribute.name)
      (props.map Prod.fst) := by
  induction props with
  | nil => exact .slnil
  | cons prop props ih =>
    obtain ⟨name, value⟩ := prop
    rw [List.filterMap_cons]
    split
    · exact ih.cons _
    · next a ha =>
      simp only at ha
      split at ha
      · next hname =>
        rw [List.map_cons, List.map_cons, (readable_attributeOf hname ha).1]
        exact ih.cons_cons _
      · contradiction

/-- No two attributes of a node have the same name. -/
theorem nodup_attributesOf (entry : Palette.Entry) (n : BuildNode) :
    ((attributesOf entry n).map View.Attribute.name).Nodup := by
  have hclasses : List.Sublist
      ((View.classAttribute (classesOf entry n).text).map View.Attribute.name) ["className"] := by
    rw [classAttribute_classesOf]
    split
    · exact List.nil_sublist _
    · exact .refl _
  -- The classes come first under a name that no other prop has.
  rw [attributesOf, List.map_append]
  exact (nodup_plainProps entry n).sublist (hclasses.append (names_sublist _))

/-- A node with classes has an attribute for them. -/
theorem classAttribute_mem (h : givenClasses entry n ≠ []) :
    .ofText "className" (" ".intercalate (givenClasses entry n)) ∈ attributesOf entry n := by
  rw [attributesOf, classAttribute_classesOf, if_neg h]
  exact List.mem_append_left _ List.mem_cons_self

/-- A prop becomes an attribute if its name is one and its value is not null. -/
theorem propAttribute_mem (hother : name ≠ "className") (hname : isAttributeName name = true)
    (hgiven : givenProp? entry n name = some value) (ha : attributeOf name value = some a) :
    a ∈ attributesOf entry n := by
  have hprop : (name, value) ∈ plainProps entry n := mem_plainProps_iff.2 ⟨hother, hgiven⟩
  refine List.mem_append_right _ (List.mem_filterMap.2 ⟨_, hprop, ?_⟩)
  simp only [hname, if_true]
  exact ha

/-- A node has an attribute for classes if and only if some are given. -/
theorem className_mem_iff : "className" ∈ (attributesOf entry n).map View.Attribute.name ↔
    givenClasses entry n ≠ [] := by
  constructor
  · intro hmem
    obtain ⟨a, ha, hclass⟩ := List.mem_map.1 hmem
    rcases mem_attributesOf ha with ⟨hsome, -⟩ | ⟨name, value, hprop, hname, ha⟩
    · exact hsome
    · have hother := (mem_plainProps_iff.1 hprop).1
      exact absurd ((readable_attributeOf hname ha).1.symm.trans hclass) hother
  · exact fun hsome => List.mem_map_of_mem (classAttribute_mem hsome)

/-- A node has another attribute if and only if its name is one for attributes and a value other
than null is given for the prop. -/
theorem name_mem_iff (hother : name ≠ "className") :
    name ∈ (attributesOf entry n).map View.Attribute.name ↔ isAttributeName name = true ∧
      ∃ value, givenProp? entry n name = some value ∧ value ≠ .null := by
  constructor
  · intro hmem
    obtain ⟨a, ha, rfl⟩ := List.mem_map.1 hmem
    rcases mem_attributesOf ha with ⟨-, rfl⟩ | ⟨name, value, hprop, hname, ha⟩
    · exact absurd rfl hother
    · rw [(readable_attributeOf hname ha).1]
      refine ⟨hname, value, (mem_plainProps_iff.1 hprop).2, ?_⟩
      rintro rfl
      cases ha
  · rintro ⟨hname, value, hgiven, hvalue⟩
    obtain ⟨a, ha⟩ := exists_attributeOf name hvalue
    refine List.mem_map.2 ⟨a, propAttribute_mem hother hname hgiven ha, ?_⟩
    exact (readable_attributeOf hname ha).1

end Attributes

end Mockup.Jsx
