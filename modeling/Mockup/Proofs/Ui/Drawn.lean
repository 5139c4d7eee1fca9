import Mockup.Ui.Inference

/-!
# What a mockup is read as

A mockup is read as texts, images, forms and frames. The fields of its forms are inputs and buttons,
and an image has the address of an element of the mockup.

## Main results

* `drawn_ofMarkup`: the tree of a mockup holds nothing else.
-/

namespace Mockup.Ui

open Markup (Element)

/-- A field that a mockup can stand for: an input or a button that need not be filled in. -/
structure Field.Drawn (f : Field) : Prop where
  /-- The control. -/
  component : f.component = .input ∨ f.component = .button
  /-- Nothing says that it must be filled in. -/
  required : f.required = none

/-- A node that a mockup can stand for. `A` holds of the addresses of its images. -/
inductive Node.Drawn (A : String → Prop) : Node → Prop
  | text {role : TextRole} {content : String} {style : Style} : Drawn A (.text role content style)
  | image {address alt : Option String} {style : Style} (haddress : ∀ a ∈ address, A a) :
    Drawn A (.image address alt style)
  | form {name : String} {fields : List Field} {actions : Option FormActions} {style : Style}
    (hfields : ∀ f ∈ fields, f.Drawn) : Drawn A (.form name fields actions style)
  | frame {layout : Layout} {style : Style} {children : List Node}
    (hchildren : ∀ n ∈ children, n.Drawn A) : Drawn A (.frame layout style children)

/-- A tree that a mockup can stand for. -/
def Tree.Drawn (A : String → Prop) (t : Tree) : Prop :=
  ∀ n ∈ t.children, n.Drawn A

/-- `A` holds of all addresses of an element and of those below it. -/
def HasAddresses (A : String → Prop) (e : Element) : Prop :=
  ∀ x ∈ e.walk, ∀ a ∈ x.attribute? "href", A a

/-- `A` holds of all addresses in a list of children. -/
def HaveAddresses (A : String → Prop) (cs : List (Content Element)) : Prop :=
  ∀ x ∈ Element.descendantsIn cs, ∀ a ∈ x.attribute? "href", A a

section

variable {A : String → Prop}

theorem drawn_textNode (fontSize fill content : Option String) :
    (textNode fontSize fill content).Drawn A :=
  .text

theorem drawn_rectangleFrame (fill cornerRadius stroke : Option String) :
    (rectangleFrame fill cornerRadius stroke).Drawn A :=
  .frame (by simp)

theorem drawn_shapeFrame (shape : String) (fill stroke : Option String) :
    (shapeFrame shape fill stroke).Drawn A := by
  refine .frame fun n hn => ?_
  obtain rfl := List.mem_singleton.1 hn
  exact .text

/-- Only an image takes an address over. -/
theorem drawn_of_shapeNode? {name : String} {attribute? : String → Option String}
    {content : Option String} {n : Node} (haddress : ∀ a ∈ attribute? "href", A a)
    (h : shapeNode? name attribute? content = some n) : n.Drawn A := by
  unfold shapeNode? at h
  split at h
  · cases h
    exact drawn_textNode _ _ _
  split at h
  · cases h
    exact drawn_rectangleFrame _ _ _
  split at h
  · cases h
    exact .image haddress
  split at h
  · cases h
    exact drawn_shapeFrame _ _ _
  · cases h

theorem drawn_of_mem_inputFields {taken : List String} {index : Nat} {labels : List String}
    {f : Field} (h : f ∈ inputFields taken index labels) : f.Drawn := by
  induction labels generalizing taken index with
  | nil => cases h
  | cons label labels ih =>
    rcases List.mem_cons.1 h with rfl | h
    · exact ⟨.inl rfl, rfl⟩
    · exact ih h

/-- A group that stands for a form has nothing of the addresses in it. -/
theorem drawn_of_groupForm? {group : Element} {n : Node} (h : groupForm? group = some n) :
    n.Drawn A := by
  unfold groupForm? at h
  simp only at h
  split at h
  · cases h
  split at h
  · cases h
  split at h
  · cases h
    refine .form fun f hf => ?_
    obtain rfl := List.mem_singleton.1 hf
    exact ⟨.inr rfl, rfl⟩
  · cases h
    exact .form fun f hf => drawn_of_mem_inputFields hf

mutual

/-- The node of an element is one that a mockup can stand for. -/
theorem drawn_of_inferNode? : ∀ (e : Element) (n : Node), HasAddresses A e →
    inferNode? e = some n → n.Drawn A
  | ⟨name, attributes, children⟩, n, haddresses, h => by
    have hbelow : HaveAddresses A children :=
      fun x hx => haddresses x (List.mem_cons_of_mem _ hx)
    rw [inferNode?] at h
    -- A group is a form or a frame around its parts; everything else is a single node.
    by_cases hgroup : isGroupName name
    · simp only [hgroup, if_true] at h
      split at h
      · next form hform =>
        cases h
        exact drawn_of_groupForm? hform
      · unfold groupFrame? at h
        split at h
        · cases h
        · cases h
          exact .frame fun n hn => drawn_of_mem_inferChildren children n hbelow hn
    · simp only [hgroup] at h
      exact drawn_of_shapeNode? (haddresses _ List.mem_cons_self) h

theorem drawn_of_mem_inferChildren : ∀ (cs : List (Content Element)) (n : Node),
    HaveAddresses A cs → n ∈ inferChildren cs → n.Drawn A
  | [], n, _, h => by cases h
  | .text s :: cs, n, haddresses, h => drawn_of_mem_inferChildren cs n haddresses h
  | .node e :: cs, n, haddresses, h => by
    -- The elements of the list are the first one, those below it, and the others.
    have hfirst : HasAddresses A e := by
      intro x hx
      refine haddresses x ?_
      rw [Element.descendantsIn_node, ← List.cons_append]
      exact List.mem_append_left _ hx
    have hothers : HaveAddresses A cs := by
      intro x hx
      refine haddresses x ?_
      rw [Element.descendantsIn_node, ← List.cons_append]
      exact List.mem_append_right _ hx
    rw [inferChildren] at h
    split at h
    · next m hm =>
      rcases List.mem_cons.1 h with rfl | h
      · exact drawn_of_inferNode? e _ hfirst hm
      · exact drawn_of_mem_inferChildren cs n hothers h
    · exact drawn_of_mem_inferChildren cs n hothers h

end

theorem drawn_tree (options : InferenceOptions) {nodes : List Node} (h : ∀ n ∈ nodes, n.Drawn A) :
    (options.tree nodes).Drawn A := by
  intro n hn
  rw [InferenceOptions.tree] at hn
  simp only at hn
  split at hn
  · obtain rfl := List.mem_singleton.1 hn
    exact .text
  · exact h n hn

/-- The tree of a mockup is one that a mockup can stand for, with the addresses of the mockup. -/
theorem drawn_ofMarkup (options : InferenceOptions) {root : Element} (h : HasAddresses A root) :
    (Tree.ofMarkup options root).Drawn A := by
  rw [Tree.ofMarkup]
  refine drawn_tree options fun n hn => ?_
  split at hn
  · obtain ⟨name, attributes, children⟩ := root
    exact drawn_of_mem_inferChildren children n (fun x hx => h x (List.mem_cons_of_mem _ hx)) hn
  · exact drawn_of_inferNode? root n h (Option.mem_toList.1 hn)

end

end Mockup.Ui
