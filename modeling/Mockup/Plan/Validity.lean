import Mockup.Plan.Basic
import Mockup.Problem

/-!
# Valid plans

`BuildPlan.problems` lists what is wrong with the shape of a plan, in document order. Keys that no
palette has are no problem here. A node below the greatest depth gets one problem, and nothing
inside it is looked at.
-/

namespace Mockup

/-- The greatest depth of a component; the root has depth zero. -/
def BuildNode.maxDepth : Nat := 32

namespace BuildNode

mutual

/-- The problems of a component at a depth. -/
def problems (place : Place) (depth : Nat) : BuildNode → List Problem
  | ⟨key, _, _, children⟩ =>
    if maxDepth < depth then [⟨place, .tooDeep maxDepth⟩]
    else Problem.when (Text.isAllBlank key) (place.field "componentKey") .empty ++
      problemsOfChildren place (depth + 1) children

/-- The problems of the children of a place, if it may have any. -/
def problemsOfChildren (place : Place) (depth : Nat) :
    Option (List (Content BuildNode)) → List Problem
  | none => []
  | some cs => problemsOfAll place depth 0 cs

/-- The problems of the children of a place from a position on, all at one depth. -/
def problemsOfAll (place : Place) (depth index : Nat) : List (Content BuildNode) → List Problem
  | [] => []
  | .text _ :: cs => problemsOfAll place depth (index + 1) cs
  | .node n :: cs =>
    problems (place.item "children" index) depth n ++ problemsOfAll place depth (index + 1) cs

end

end BuildNode

namespace BuildPlan

/-- The problems of a plan. -/
def problems (p : BuildPlan) : List Problem :=
  Problem.when (Text.isAllBlank p.name) [⟨"name", none⟩] .empty ++
    p.root.problems [⟨"root", none⟩] 0

/-- Passes if a plan has no problems. -/
def validate (p : BuildPlan) : Except (List Problem) Unit :=
  Problem.check p.problems

end BuildPlan

end Mockup
