import Mockup.Palette.Basic
import Mockup.Plan.Basic
import Mockup.Warning

/-!
# Plans bound to a palette

A plan is bound to a palette by giving every component a key that the palette has and by listing the
imports that those keys need. `BuildPlan.bind` reports each key that it has to replace.
-/

namespace Mockup

/-- The key of the component that stands in for unknown ones. -/
def fallbackKey : String := "layout.stack"

/-- A plan and the remarks on it. -/
structure Planned where
  /-- The plan. -/
  plan : BuildPlan
  /-- The remarks, in document order. -/
  warnings : List Warning := []

/-- The key itself if the palette has it, and otherwise the fallback if the palette has that. -/
def Palette.resolve (p : Palette) (key : String) : String :=
  if p.contains key || !p.contains fallbackKey then key else fallbackKey

/-- In a palette with the fallback every key resolves to one that the palette has. -/
theorem Palette.contains_resolve {p : Palette} (h : p.contains fallbackKey) (key : String) :
    p.contains (p.resolve key) := by
  unfold resolve
  split
  · simp_all
  · exact h

namespace BuildPlan

/-- The imports that a plan needs from a palette. -/
def neededImports (palette : Palette) (p : BuildPlan) : List String :=
  palette.importsOf p.componentKeys

/-- The plan with keys that the palette has, as far as it has the fallback, with the imports of
those keys, and with a warning for each node whose key is unknown. -/
def bind (palette : Palette) (p : BuildPlan) : Planned :=
  let bound := { p with root := p.root.mapKeys palette.resolve }
  { plan := { bound with imports := bound.neededImports palette }
    warnings := (p.root.keys.filter fun k => !palette.contains k).map .unknownKey }

end BuildPlan

end Mockup
