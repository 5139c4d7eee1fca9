import Mockup.Proofs.Plan.Binding
import Mockup.Proofs.Plan.Walk
import Mockup.Proofs.Ui.Drawn

/-!
# The props of a plan

The plan of a mockup gives its components few props, all of them texts, and the only one that comes
from an address is `src`.

* `n.HasProps P` — `P` holds of every prop of a node and of the nodes below it.
* `DrawnProp A` — what holds of the props in the plan of a mockup with addresses from `A`.

## Main results

* `hasProps_ofNode`: the component of a node that a mockup can stand for has such props.
* `mem_walk_ofTree`: in the plan of a tree all components are in the palette and have such props.
-/

namespace Mockup

namespace BuildNode

/-! ### Props of all nodes -/

/-- `P` holds of every prop of a node and of the nodes below it. -/
def HasProps (P : String → Json → Prop) (n : BuildNode) : Prop :=
  ∀ m ∈ n.walk, ∀ p ∈ (m.props.getD .empty).entries, P p.1 p.2

section HasProps

variable {P : String → Json → Prop} {n : BuildNode}

/-- What holds of the props of a node holds of its own ones and of those below it. -/
theorem hasProps_iff : n.HasProps P ↔
    (∀ p ∈ (n.props.getD .empty).entries, P p.1 p.2) ∧
      ∀ m ∈ n.descendants, ∀ p ∈ (m.props.getD .empty).entries, P p.1 p.2 := by
  rw [HasProps, walk_eq, List.forall_mem_cons]

theorem hasProps_ofKey (key : String) : (ofKey key).HasProps P :=
  hasProps_iff.2 ⟨fun _ hp => absurd hp List.not_mem_nil, fun _ hm => absurd hm List.not_mem_nil⟩

theorem HasProps.withProp (h : n.HasProps P) {name : String} {value : Json} (hp : P name value) :
    (n.withProp name value).HasProps P := by
  obtain ⟨hown, hbelow⟩ := hasProps_iff.1 h
  refine hasProps_iff.2 ⟨fun p hmem => ?_, hbelow⟩
  rcases Dict.eq_or_mem_of_mem_insertEntry hmem with rfl | hmem
  · exact hp
  · exact hown p hmem

theorem HasProps.withClasses (h : n.HasProps P) (classes : String) :
    (n.withClasses classes).HasProps P := by
  rw [hasProps_iff, props_withClasses, descendants_withClasses, ← hasProps_iff]
  exact h

theorem HasProps.withText (h : n.HasProps P) (s : String) : (n.withText s).HasProps P := by
  rw [hasProps_iff, props_withText, descendants_withText, ← hasProps_iff]
  exact h

theorem HasProps.withChild (h : n.HasProps P) {c : BuildNode} (hc : c.HasProps P) :
    (n.withChild (.node c)).HasProps P := by
  obtain ⟨hown, hbelow⟩ := hasProps_iff.1 h
  rw [hasProps_iff, props_withChild, descendants_withChild, List.forall_mem_append]
  exact ⟨hown, hbelow, hc⟩

theorem HasProps.withNodes (h : n.HasProps P) {ns : List BuildNode}
    (hns : ∀ c ∈ ns, c.HasProps P) : (n.withNodes ns).HasProps P := by
  obtain ⟨hown, hbelow⟩ := hasProps_iff.1 h
  rw [hasProps_iff, props_withNodes, descendants_withNodes, List.forall_mem_append,
    List.forall_mem_flatMap]
  exact ⟨hown, hbelow, hns⟩

end HasProps

end BuildNode

/-! ### Props of the plan of a mockup -/

/-- The names of the props in the plan of a mockup. -/
def drawnPropNames : List String := ["name", "aria-label", "type", "placeholder", "alt", "src"]

/-- A prop in the plan of a mockup: a text, which is an address from `A` if its name is `src`. -/
structure DrawnProp (A : String → Prop) (name : String) (value : Json) : Prop where
  name_mem : name ∈ drawnPropNames
  text : ∃ s, value = .string s ∧ (name = "src" → A s)

/-- A text under a name other than `src`. -/
theorem drawnProp_string {A : String → Prop} (name : String) (hname : name ∈ drawnPropNames)
    (hsrc : name ≠ "src") (s : String) : DrawnProp A name (.string s) :=
  ⟨hname, s, rfl, fun h => absurd h hsrc⟩

namespace BuildNode

open Ui

section Drawn

variable {A : String → Prop} {n : BuildNode}

theorem hasProps_ofStyled (key : String) (s : Style) : (ofStyled key s).HasProps (DrawnProp A) :=
  (hasProps_ofKey key).withClasses _

theorem hasProps_ofField {f : Field} (h : f.Drawn) : (ofField f).HasProps (DrawnProp A) := by
  unfold ofField
  rcases h.component with hinput | hbutton
  · rw [hinput]
    simp only [ofControl, h.required]
    have hcontrol := (((hasProps_ofKey "form.input").withProp
      (drawnProp_string (A := A) "name" (by decide) (by decide) f.name)).withProp
      (drawnProp_string "aria-label" (by decide) (by decide) f.caption)).withProp
      (drawnProp_string "type" (by decide) (by decide) "text")
    unfold withPlaceholder
    split
    · exact hcontrol
    · exact hcontrol.withProp (drawnProp_string "placeholder" (by decide) (by decide) _)
  · rw [hbutton]
    exact (hasProps_ofKey _).withText _

theorem hasProps_ofImage {address alt : Option String} (h : ∀ a ∈ address, A a) (s : Style) :
    (ofImage address alt s).HasProps (DrawnProp A) := by
  have himage := (hasProps_ofStyled (A := A) "media.img" s).withProp
    (drawnProp_string "alt" (by decide) (by decide) (alt.getD ""))
  unfold ofImage
  simp only
  split
  · exact himage
  · next a =>
    exact himage.withProp ⟨by decide, a, rfl, fun _ => h a rfl⟩

mutual

/-- The component of a node that a mockup can stand for has only such props. -/
theorem hasProps_ofNode (palette : Palette) : ∀ n : Node, n.Drawn A →
    (ofNode palette n).HasProps (DrawnProp A)
  | .text role content style, _ => by
    rw [ofNode]
    exact (hasProps_ofStyled _ style).withText content
  | .image address alt style, h => by
    cases h with
    | image haddress =>
      rw [ofNode]
      exact hasProps_ofImage haddress style
  | .icon name style, h => by cases h
  | .button label style, h => by cases h
  | .form name fields actions style, h => by
    cases h with
    | form hfields =>
      rw [ofNode]
      refine (hasProps_ofStyled _ style).withChild ((hasProps_ofKey _).withNodes fun c hc => ?_)
      obtain ⟨f, hf, rfl⟩ := List.mem_map.1 hc
      exact hasProps_ofField (hfields f hf)
  | .list items style, h => by cases h
  | .frame layout style children, h => by
    cases h with
    | frame hchildren =>
      rw [ofNode]
      exact ((hasProps_ofKey _).withClasses _).withNodes
        (hasProps_ofNodes palette children hchildren)

theorem hasProps_ofNodes (palette : Palette) : ∀ ns : List Node, (∀ n ∈ ns, n.Drawn A) →
    ∀ c ∈ ofNodes palette ns, c.HasProps (DrawnProp A)
  | [], _, c, hc => by cases hc
  | n :: ns, h, c, hc => by
    rw [ofNodes] at hc
    obtain ⟨hn, hns⟩ := List.forall_mem_cons.1 h
    rcases List.mem_cons.1 hc with rfl | hc
    · exact hasProps_ofNode palette n hn
    · exact hasProps_ofNodes palette ns hns c hc

end

end Drawn

end BuildNode

/-- In the plan of a tree that a mockup can stand for, every component has only such props, and it
is in the palette if the fallback is. -/
theorem BuildPlan.mem_walk_ofTree {palette : Palette}
    (hfallback : palette.contains fallbackKey = true) {A : String → Prop} {t : Ui.Tree}
    (h : t.Drawn A) (name : String) :
    ∀ m ∈ (ofTree palette t name).plan.root.walk, palette.contains m.key = true ∧
      ∀ p ∈ (m.props.getD .empty).entries, DrawnProp A p.1 p.2 := by
  have hsketch : (sketch palette t name).root.HasProps (DrawnProp A) :=
    (BuildNode.hasProps_ofKey _).withChild
      ((BuildNode.hasProps_ofKey _).withNodes (BuildNode.hasProps_ofNodes palette _ h))
  intro m hm
  rw [ofTree, bind, BuildNode.walk_mapKeys] at hm
  obtain ⟨m', hm', rfl⟩ := List.mem_map.1 hm
  rw [BuildNode.key_mapKeys, BuildNode.props_mapKeys]
  exact ⟨Palette.contains_resolve hfallback _, hsketch m' hm'⟩

end Mockup
