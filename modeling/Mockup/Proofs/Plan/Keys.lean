import Mockup.Palette.Builtin
import Mockup.Proofs.Plan.Walk

/-!
# The keys in a plan

The plan of a tree uses few keys, and all of them are keys of the built-in palette, whatever palette
the texts are looked up in.

## Main results

* `keys_ofNode`: the component of a node has such keys only.
* `BuildPlan.keys_sketch`: the components of a tree have such keys only.
-/

namespace Mockup

namespace BuildNode

open Ui

/-! ### Keys of a component -/

section Building

variable (n : BuildNode)

/-- The keys of a node are its own one and those of the nodes below it. -/
theorem keys_eq : n.keys = n.key :: n.descendants.map BuildNode.key := by
  rw [keys, walk_eq, List.map_cons]

@[simp] theorem keys_ofKey (key : String) : (ofKey key).keys = [key] := rfl

@[simp] theorem keys_withProp (name : String) (value : Json) :
    (n.withProp name value).keys = n.keys := by
  rw [keys_eq, key_withProp, descendants_withProp, ← keys_eq]

@[simp] theorem keys_withClasses (classes : String) : (n.withClasses classes).keys = n.keys := by
  rw [keys_eq, key_withClasses, descendants_withClasses, ← keys_eq]

@[simp] theorem keys_withText (s : String) : (n.withText s).keys = n.keys := by
  rw [keys_eq, key_withText, descendants_withText, ← keys_eq]

@[simp] theorem keys_withChild (c : BuildNode) :
    (n.withChild (.node c)).keys = n.keys ++ c.keys := by
  rw [keys_eq, key_withChild, descendants_withChild, List.map_append, keys_eq n, keys,
    List.cons_append]

@[simp] theorem keys_withNodes (ns : List BuildNode) :
    (n.withNodes ns).keys = n.keys ++ ns.flatMap keys := by
  rw [keys_eq, key_withNodes, descendants_withNodes, List.map_append, List.map_flatMap, keys_eq n,
    List.cons_append]
  rfl

@[simp] theorem keys_withPlaceholder (placeholder : Option String) :
    (n.withPlaceholder placeholder).keys = n.keys := by
  cases placeholder with
  | none => rfl
  | some s => exact keys_withProp n "placeholder" (.string s)

end Building

@[simp] theorem keys_ofStyled (key : String) (s : Style) : (ofStyled key s).keys = [key] := by
  rw [ofStyled, keys_withClasses, keys_ofKey]

@[simp] theorem keys_ofControl (key : String) (f : Field) : (ofControl key f).keys = [key] := by
  unfold ofControl
  simp only
  split <;> simp

@[simp] theorem keys_ofOption (option : String) : (ofOption option).keys = ["form.option"] := by
  simp [ofOption]

@[simp] theorem keys_ofImage (src alt : Option String) (s : Style) :
    (ofImage src alt s).keys = ["media.img"] := by
  unfold ofImage
  cases src <;> simp

/-! ### Keys of the components of a tree -/

/-- The keys that the plan of a tree may use. -/
def mappedKeys : List String :=
  ["layout.card", "layout.stack", "typography.h1", "typography.h2", "typography.h3", "typography.p",
    "typography.span", "form.input", "form.textarea", "form.select", "form.option", "form.checkbox",
    "form.button", "list.ul", "list.li", "media.img", "icon.button"]

/-- The built-in palette has all of them. -/
theorem mappedKeys_subset : mappedKeys ⊆ Palette.builtin.keys := by
  decide +kernel

/-- A text has the key of its role or that of a paragraph. -/
theorem textKey_mem (palette : Palette) (role : TextRole) : textKey palette role ∈ mappedKeys := by
  unfold textKey
  simp only
  split
  · cases role <;> decide
  · decide

/-- Several nodes have such keys if each of them has. -/
theorem flatMap_keys_subset {ns : List BuildNode} (h : ∀ n ∈ ns, n.keys ⊆ mappedKeys) :
    ns.flatMap keys ⊆ mappedKeys := by
  intro key hkey
  obtain ⟨n, hn, hkey⟩ := List.mem_flatMap.1 hkey
  exact h n hn hkey

theorem keys_ofField (f : Field) : (ofField f).keys ⊆ mappedKeys := by
  unfold ofField
  cases f.component with
  | select =>
    rw [keys_withNodes, keys_ofControl]
    refine List.cons_subset.2 ⟨by decide, flatMap_keys_subset fun n hn => ?_⟩
    obtain ⟨option, -, rfl⟩ := List.mem_map.1 hn
    simp [mappedKeys]
  | input | textarea | checkbox | switch | button => simp [mappedKeys]

mutual

/-- The component of a node has such keys only. -/
theorem keys_ofNode (palette : Palette) : ∀ n : Node, (ofNode palette n).keys ⊆ mappedKeys
  | .text role content style => by simp [ofNode, textKey_mem]
  | .image src alt style => by simp [ofNode, mappedKeys]
  | .icon name style => by simp [ofNode, mappedKeys]
  | .button label style => by simp [ofNode, mappedKeys]
  | .form name fields actions style => by
    rw [ofNode, keys_withChild, keys_ofStyled, keys_withNodes, keys_ofKey]
    refine List.cons_subset.2 ⟨by decide, List.cons_subset.2 ⟨by decide, ?_⟩⟩
    refine flatMap_keys_subset fun n hn => ?_
    obtain ⟨f, -, rfl⟩ := List.mem_map.1 hn
    exact keys_ofField f
  | .list items style => by
    rw [ofNode, keys_withNodes, keys_ofStyled]
    exact List.cons_subset.2 ⟨by decide, keys_ofItems palette items⟩
  | .frame layout style children => by
    rw [ofNode, keys_withNodes, keys_withClasses, keys_ofKey]
    exact List.cons_subset.2 ⟨by decide, keys_ofNodes palette children⟩

theorem keys_ofNodes (palette : Palette) :
    ∀ ns : List Node, (ofNodes palette ns).flatMap keys ⊆ mappedKeys
  | [] => List.nil_subset _
  | n :: ns => by
    rw [ofNodes, List.flatMap_cons]
    exact List.append_subset.2 ⟨keys_ofNode palette n, keys_ofNodes palette ns⟩

theorem keys_ofItems (palette : Palette) :
    ∀ cs : List (Content Node), (ofItems palette cs).flatMap keys ⊆ mappedKeys
  | [] => List.nil_subset _
  | .text s :: cs => by
    rw [ofItems, List.flatMap_cons, keys_withText, keys_ofKey]
    exact List.cons_subset.2 ⟨by decide, keys_ofItems palette cs⟩
  | .node n :: cs => by
    rw [ofItems, List.flatMap_cons, keys_withChild, keys_ofKey]
    refine List.append_subset.2 ⟨?_, keys_ofItems palette cs⟩
    exact List.cons_subset.2 ⟨by decide, keys_ofNode palette n⟩

end

end BuildNode

/-- The components of a tree have keys of the built-in palette only. -/
theorem BuildPlan.keys_sketch (palette : Palette) (t : Ui.Tree) (name : String) :
    (sketch palette t name).root.keys ⊆ Palette.builtin.keys := by
  refine List.Subset.trans ?_ BuildNode.mappedKeys_subset
  rw [sketch, BuildNode.keys_withChild, BuildNode.keys_withNodes, BuildNode.keys_ofKey,
    BuildNode.keys_ofKey]
  exact List.cons_subset.2 ⟨by decide,
    List.cons_subset.2 ⟨by decide, BuildNode.keys_ofNodes palette t.children⟩⟩

end Mockup
