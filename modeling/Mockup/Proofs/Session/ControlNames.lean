import Mockup.Proofs.Jsx.Controls
import Mockup.Proofs.Session.Generated

/-!
# Names of controls in a component

All forms of a mockup end in one form of its component, which sends the value of a control under the
name of the control. The names differ within each form of the mockup. Two forms may give the same
name to their controls, and then only one of the two values is sent.

* `controlNames xs` — the names under which elements send their values, in order.
* `ControlsOf t wrapper rest` — the elements of a component file send the values of the forms of
  `t`.

## Main results

* `controlsOf_generate`: the component of a mockup sends the values of its forms.
* `nodup_controlNames_generate`: the names of all controls differ exactly if no two forms share one.
* `not_nodup_controlNames_twoForms`: two forms may share a name.
-/

namespace Mockup.Session

open Jsx (scan)

/-- The names under which elements send their values, in order. -/
def controlNames (xs : List Jsx.Element.Entry) : List String :=
  xs.filterMap fun x => x.element.controlName?

/-- The elements of a component file send the values of the forms of a tree. -/
structure ControlsOf (t : Ui.Tree) (wrapper : Jsx.Element.Entry)
    (rest : List Jsx.Element.Entry) : Prop where
  /-- Nothing is around the wrapper. -/
  outermost : wrapper.parent = none
  /-- Everything else is inside the wrapper. -/
  inside : ∀ x ∈ rest, x.parent ≠ none
  /-- The wrapper is a form if there is a value to send. -/
  form : controlNames rest ≠ [] → wrapper.element.tag = "form"
  /-- The names are those in the forms of the tree, one form after the other. -/
  names : controlNames rest = t.formNames.flatten

variable {config : Config} {r : GenerateRequest} {g : Generated}

/-- In the plan of the tree of a mockup all components are built in and their props are texts. -/
theorem mem_walk_ofMarkup (options : Ui.InferenceOptions) (root : Markup.Element) (name : String) :
    ∀ m ∈ (BuildPlan.ofTree .builtin (Ui.Tree.ofMarkup options root) name).plan.root.walk,
      Palette.builtin.contains m.key = true ∧
        ∀ p ∈ (m.props.getD .empty).entries, ∃ s, p.2 = .string s := by
  have htree : (Ui.Tree.ofMarkup options root).Drawn fun _ => True :=
    Ui.drawn_ofMarkup options fun _ _ _ _ => trivial
  intro m hm
  obtain ⟨hkey, hprops⟩ :=
    BuildPlan.mem_walk_ofTree Palette.contains_fallbackKey_builtin htree name m hm
  exact ⟨hkey, fun p hp => (hprops p hp).text.imp fun _ h => h.1⟩

/-- The built-in components have no name of their own. -/
theorem name_builtin : ∀ e ∈ Palette.builtin.entries,
    (e.defaultProps.getD .empty).get? "name" = none := by
  have hall : (Palette.builtinEntries.all fun e =>
    ((e.defaultProps.getD .empty).get? "name").isNone) = true := rfl
  intro e he
  exact Option.isNone_iff_eq_none.1 (List.all_eq_true.1 hall e he)

/-- The components of controls are built in, and their keys name controls. -/
theorem isControlKey_builtin (c : Ui.FieldComponent) :
    Jsx.isControlKey .builtin (Palette.builtin.resolve c.key) = true := by
  cases c <;> decide +kernel

theorem isControlKey_of_mem_controls {c : String × String} {t : Ui.Tree}
    (h : c ∈ t.walk.flatMap Ui.Node.controls) :
    Jsx.isControlKey .builtin (Palette.builtin.resolve c.1) = true := by
  obtain ⟨n, -, hc⟩ := List.mem_flatMap.1 h
  cases n with
  | form name fields actions style =>
    obtain ⟨f, -, hf⟩ := List.mem_filterMap.1 hc
    obtain ⟨s, -, rfl⟩ := Option.map_eq_some_iff.1 hf
    exact isControlKey_builtin f.component
  | text | image | icon | frame | list | button => cases hc

/-- The component of a mockup sends the values of its forms. -/
theorem controlsOf_generate {root : Markup.Element}
    (hread : Session.readMarkup { config, palette := .builtin } r.markup = .ok root) :
    ∃ g es wrapper rest, Session.generate { config, palette := .builtin } r = .ok g ∧
      g.tree = Ui.Tree.ofMarkup {} root ∧ scan g.code.toList = .ok es ∧
      Jsx.Element.entriesOfAll none 0 es = wrapper :: rest ∧ ControlsOf g.tree wrapper rest := by
  let t := Ui.Tree.ofMarkup {} root
  let plan := (BuildPlan.ofTree .builtin t (Jsx.componentName (requestedName r.name))).plan
  obtain ⟨el, hscan, htag, hnames⟩ := Jsx.exists_controlNames_ofPlan Palette.importLine_builtin
    Palette.isTagName_builtin name_builtin (mem_walk_ofMarkup {} root _) config.outputDirectory
  -- The names go from the tree to the plan, and from there to the elements of the file.
  have hcontrols : plan.root.controls =
      (t.walk.flatMap Ui.Node.controls).map fun c => (Palette.builtin.resolve c.1, c.2) :=
    BuildPlan.controls_ofTree .builtin t _
  have hread' : controlNames (Jsx.Element.entriesOfAll (some 0) 1 el.children) =
      plan.root.controls.map Prod.snd := by
    rw [← hnames, ← Jsx.Element.map_element_entriesOfAll (some 0) 1, List.filterMap_map]
    rfl
  have hflatten : plan.root.controls.map Prod.snd = t.formNames.flatten := by
    rw [hcontrols, List.map_map, Ui.Tree.formNames, ← Ui.Node.map_snd_flatMap_controls]
    rfl
  refine ⟨_, [el], _, _, generate_of_readMarkup hread, rfl, hscan,
    Jsx.Element.entriesOfAll_cons none 0 el [], ?_⟩
  rw [Jsx.Element.entriesOfAll_nil, List.append_nil]
  refine ⟨rfl, fun x hx => ?_, fun hne => ?_, hread'.trans hflatten⟩
  · obtain ⟨q, hparent, -⟩ := Jsx.Element.le_parent_of_mem hx
    simp [hparent]
  · -- A name is that of a control, whose key is in the plan.
    rw [hread', hcontrols, List.map_map] at hne
    obtain ⟨c, hc⟩ := List.exists_mem_of_ne_nil _ fun hnil => hne (List.map_eq_nil_iff.2 hnil)
    have hmem : (Palette.builtin.resolve c.1, c.2) ∈ plan.root.controls := by
      rw [hcontrols]
      exact List.mem_map_of_mem hc
    obtain ⟨m, hm, hcontrol⟩ := List.mem_filterMap.1 hmem
    obtain ⟨s, -, heq⟩ := Option.map_eq_some_iff.1 hcontrol
    obtain ⟨hkey, -⟩ := Prod.mk.inj heq
    exact htag.trans (Jsx.tag_wrapperOfPlan_of_key (List.mem_map.2 ⟨m, hm, hkey⟩)
      (isControlKey_of_mem_controls hc))

/-- The component of a mockup sends the values of all forms of the mockup under their names. The
names in one form differ. So all names differ exactly if no two forms share one. -/
theorem nodup_controlNames_generate
    (h : Session.generate { config, palette := .builtin } r = .ok g) :
    ∃ es wrapper rest, scan g.code.toList = .ok es ∧
      Jsx.Element.entriesOfAll none 0 es = wrapper :: rest ∧ ControlsOf g.tree wrapper rest ∧
      (∀ names ∈ g.tree.formNames, names.Nodup) ∧
      ((controlNames rest).Nodup ↔ g.tree.formNames.Pairwise List.Disjoint) := by
  obtain ⟨root, hread⟩ := exists_readMarkup_of_generate h
  obtain ⟨g', es, wrapper, rest, hg, htree, hscan, hentries, hcontrols⟩ :=
    controlsOf_generate hread
  obtain rfl : g' = g := Except.ok.inj (hg.symm.trans h)
  have hforms : ∀ names ∈ g'.tree.formNames, names.Nodup := by
    rw [htree]
    exact Ui.nodup_formNames_ofMarkup {} root
  refine ⟨es, wrapper, rest, hscan, hentries, hcontrols, hforms, ?_⟩
  rw [hcontrols.names, List.nodup_flatten, and_iff_right hforms]

/-- A request for a mockup with two groups, each of which stands for a form with one input. -/
def twoForms (first second : String) : GenerateRequest :=
  { markup := "<svg><g><rect/><rect/><text>" ++ first ++ "</text></g><g><rect/><rect/><text>" ++
      second ++ "</text></g></svg>"
    name := "A" }

/-- The names in the forms of the mockup of a request, if that can be read. -/
def formNamesOf (r : GenerateRequest) : Option (List (List String)) :=
  (Session.readMarkup { config := {}, palette := .builtin } r.markup).toOption.map fun root =>
    (Ui.Tree.ofMarkup {} root).formNames

theorem exists_readMarkup_of_formNamesOf {names : List (List String)}
    (h : formNamesOf r = some names) : ∃ root,
      Session.readMarkup { config := {}, palette := .builtin } r.markup = .ok root ∧
        (Ui.Tree.ofMarkup {} root).formNames = names := by
  rw [formNamesOf] at h
  obtain ⟨root, hroot, hnames⟩ := Option.map_eq_some_iff.1 h
  cases hread : Session.readMarkup { config := {}, palette := .builtin } r.markup with
  | error f =>
    rw [hread] at hroot
    cases hroot
  | ok root' =>
    rw [hread] at hroot
    cases hroot
    exact ⟨root, rfl, hnames⟩

/-- The names of two forms with different labels differ. -/
theorem nodup_controlNames_generate_twoForms : ∃ g es wrapper rest,
    Session.generate { config := {}, palette := .builtin } (twoForms "Email" "Phone") = .ok g ∧
      scan g.code.toList = .ok es ∧ Jsx.Element.entriesOfAll none 0 es = wrapper :: rest ∧
      controlNames rest = ["email", "phone"] ∧ (controlNames rest).Nodup := by
  have hnames : formNamesOf (twoForms "Email" "Phone") = some [["email"], ["phone"]] := by
    decide +kernel
  obtain ⟨root, hread, hforms⟩ := exists_readMarkup_of_formNamesOf hnames
  have hg := generate_of_readMarkup hread
  obtain ⟨es, wrapper, rest, hscan, hentries, hcontrols, -, hnodup⟩ :=
    nodup_controlNames_generate hg
  have hsent : controlNames rest = ["email", "phone"] := by
    rw [hcontrols.names]
    exact congrArg List.flatten hforms
  refine ⟨_, es, wrapper, rest, hg, hscan, hentries, hsent, hnodup.2 ?_⟩
  change ((Ui.Tree.ofMarkup {} root).formNames).Pairwise List.Disjoint
  rw [hforms]
  simp

/-- Two forms with the same label give the same name to their controls, and both controls are in the
form that sends the values. -/
theorem not_nodup_controlNames_twoForms : ∃ g es wrapper rest,
    Session.generate { config := {}, palette := .builtin } (twoForms "Email" "Email") = .ok g ∧
      scan g.code.toList = .ok es ∧ Jsx.Element.entriesOfAll none 0 es = wrapper :: rest ∧
      wrapper.element.tag = "form" ∧ controlNames rest = ["email", "email"] ∧
      ¬ (controlNames rest).Nodup := by
  have hnames : formNamesOf (twoForms "Email" "Email") = some [["email"], ["email"]] := by
    decide +kernel
  obtain ⟨root, hread, hforms⟩ := exists_readMarkup_of_formNamesOf hnames
  obtain ⟨g, es, wrapper, rest, hg, htree, hscan, hentries, hcontrols⟩ := controlsOf_generate hread
  have hsent : controlNames rest = ["email", "email"] := by
    rw [hcontrols.names, htree, hforms]
    rfl
  have hform : wrapper.element.tag = "form" := hcontrols.form (by simp [hsent])
  exact ⟨g, es, wrapper, rest, hg, hscan, hentries, hform, hsent, by simp [hsent]⟩

end Mockup.Session
