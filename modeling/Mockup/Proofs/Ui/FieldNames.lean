import Mockup.Proofs.Text.FreshName
import Mockup.Ui.Inference

/-!
# Names of form fields

In every form that a mockup is read as, the fields have different names. Nothing of the kind holds
of two forms: each of them starts with no names taken.

* `f.controlName?` — the name under which the value of a field is sent.
* `t.formNames` — these names, form by form, in document order.

## Main results

* `nodup_inputFields`: the names of the inputs of one form differ.
* `nodup_formNames_ofMarkup`: the names in each form of a mockup differ.
-/

namespace Mockup.Ui

open Markup (Element)

/-- The name under which the value of a field is sent. The value of a button is not sent. -/
def Field.controlName? (f : Field) : Option String :=
  if f.component = .button then none else some f.name

namespace Node

/-- The names under which a form sends its values; other nodes send none. -/
def controlNames? : Node → Option (List String)
  | .form _ fields _ _ => some (fields.filterMap Field.controlName?)
  | .text .. | .image .. | .icon .. | .frame .. | .list .. | .button .. => none

/-- The names in the forms of a node, form by form. -/
def formNames (n : Node) : List (List String) :=
  n.walk.filterMap controlNames?

/-- The names in the forms of several nodes, form by form. -/
def formNamesOfAll (ns : List Node) : List (List String) :=
  (walkAll ns).filterMap controlNames?

theorem formNamesOfAll_cons (n : Node) (ns : List Node) :
    formNamesOfAll (n :: ns) = n.formNames ++ formNamesOfAll ns := by
  rw [formNamesOfAll, walkAll, List.filterMap_append, formNames, formNamesOfAll]

theorem formNames_frame (layout : Layout) (style : Style) (children : List Node) :
    (Node.frame layout style children).formNames = formNamesOfAll children := by
  rw [formNames, walk, List.filterMap_cons_none rfl, formNamesOfAll]

theorem formNames_form (name : String) (fields : List Field) (actions : Option FormActions)
    (style : Style) :
    (Node.form name fields actions style).formNames = [fields.filterMap Field.controlName?] := by
  simp [formNames, walk, controlNames?]

end Node

/-- The names under which the forms of a tree send their values, form by form. -/
def Tree.formNames (t : Tree) : List (List String) :=
  t.walk.filterMap Node.controlNames?

/-! ### One form -/

/-- The value of every input is sent. -/
theorem filterMap_controlName?_inputFields (taken : List String) (index : Nat)
    (labels : List String) :
    (inputFields taken index labels).filterMap Field.controlName? =
      (inputFields taken index labels).map Field.name := by
  induction labels generalizing taken index with
  | nil => rfl
  | cons label labels ih =>
    rw [inputFields, List.map_cons, ← ih]
    exact List.filterMap_cons_some (if_neg FieldComponent.noConfusion)

/-- The names of the inputs of a form differ, and none of them was taken. -/
theorem nodup_inputFields (taken : List String) (index : Nat) (labels : List String) :
    ((inputFields taken index labels).filterMap Field.controlName?).Nodup ∧
      ∀ name ∈ (inputFields taken index labels).filterMap Field.controlName?, name ∉ taken := by
  induction labels generalizing taken index with
  | nil => exact ⟨List.nodup_nil, List.forall_mem_nil _⟩
  | cons label labels ih =>
    -- The later names are chosen when the first one is taken as well.
    let name := Text.freshName taken (fieldSlug label index)
    obtain ⟨hnodup, hnew⟩ := ih (name :: taken) (index + 1)
    rw [inputFields, List.filterMap_cons_some (b := name) (by simp [Field.controlName?, name]),
      List.nodup_cons, List.forall_mem_cons]
    exact ⟨⟨fun hmem => hnew name hmem List.mem_cons_self, hnodup⟩,
      Text.freshName_notMem taken _, fun other hother htaken =>
        hnew other hother (List.mem_cons_of_mem _ htaken)⟩

/-- In the form that a group stands for the names differ. -/
theorem nodup_of_groupForm? {group : Element} {n : Node} (h : groupForm? group = some n) :
    ∀ names ∈ n.formNames, names.Nodup := by
  unfold groupForm? at h
  simp only at h
  split at h
  · cases h
  split at h
  · cases h
  split at h
  · cases h
    rw [buttonForm, Node.formNames_form]
    simp [Field.controlName?]
  · cases h
    rw [inputForm, Node.formNames_form, List.forall_mem_singleton]
    exact (nodup_inputFields [] 0 _).1

/-! ### All forms of a mockup -/

/-- An element that is no group stands for no form. -/
theorem formNames_of_shapeNode? {name : String} {attribute? : String → Option String}
    {content : Option String} {n : Node} (h : shapeNode? name attribute? content = some n) :
    n.formNames = [] := by
  unfold shapeNode? at h
  split at h
  · cases h
    rfl
  split at h
  · cases h
    rfl
  split at h
  · cases h
    rfl
  split at h
  · cases h
    rfl
  · cases h

mutual

/-- In each form that an element stands for the names differ. -/
theorem nodup_of_inferNode? : ∀ (e : Element) (n : Node), inferNode? e = some n →
    ∀ names ∈ n.formNames, names.Nodup
  | ⟨name, attributes, children⟩, n, h => by
    rw [inferNode?] at h
    -- A group is a form or a frame around its parts, and nothing else holds a form.
    by_cases hgroup : isGroupName name
    · simp only [hgroup, if_true] at h
      split at h
      · next form hform =>
        cases h
        exact nodup_of_groupForm? hform
      · unfold groupFrame? at h
        split at h
        · cases h
        · cases h
          rw [Node.formNames_frame]
          exact nodup_of_inferChildren children
    · simp only [hgroup] at h
      rw [formNames_of_shapeNode? h]
      exact List.forall_mem_nil _

theorem nodup_of_inferChildren : ∀ cs : List (Content Element),
    ∀ names ∈ Node.formNamesOfAll (inferChildren cs), names.Nodup
  | [] => List.forall_mem_nil _
  | .text _ :: cs => nodup_of_inferChildren cs
  | .node e :: cs => by
    rw [inferChildren]
    split
    · next n hn =>
      rw [Node.formNamesOfAll_cons, List.forall_mem_append]
      exact ⟨nodup_of_inferNode? e n hn, nodup_of_inferChildren cs⟩
    · exact nodup_of_inferChildren cs

end

/-- In each form that a mockup is read as the names differ. -/
theorem nodup_formNames_ofMarkup (options : InferenceOptions) (root : Element) :
    ∀ names ∈ (Tree.ofMarkup options root).formNames, names.Nodup := by
  have htree (nodes : List Node) (h : ∀ names ∈ Node.formNamesOfAll nodes, names.Nodup) :
      ∀ names ∈ (options.tree nodes).formNames, names.Nodup := by
    rw [Tree.formNames, Tree.walk, InferenceOptions.tree]
    simp only
    split
    · exact List.forall_mem_nil _
    · exact h
  rw [Tree.ofMarkup]
  refine htree _ ?_
  split
  · exact nodup_of_inferChildren root.children
  · cases h : inferNode? root with
    | none => exact List.forall_mem_nil _
    | some n =>
      rw [Option.toList_some, Node.formNamesOfAll_cons, List.forall_mem_append]
      exact ⟨nodup_of_inferNode? root n h, List.forall_mem_nil _⟩

end Mockup.Ui
