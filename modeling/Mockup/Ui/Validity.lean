import Mockup.Problem
import Mockup.Text.Blank
import Mockup.Ui.Tree

/-!
# Valid trees

`Tree.problems` lists what is wrong with a tree, in document order, with the path to each place. A
node below the greatest depth gets one problem, and nothing inside it is looked at.
-/

namespace Mockup.Ui

/-- The greatest depth of a node; the children of the root have depth one. -/
def maxDepth : Nat := 32

/-- Whether a quantity is finite and not below zero. -/
def isNonNegative (x : Float) : Bool :=
  x.isFinite && !(x < 0.0)

/-- The problem with a text that must not be blank. -/
def blankProblem (place : Place) (s : String) : List Problem :=
  Problem.when (Text.isAllBlank s) place .empty

/-- The problems of a layout. -/
def Layout.problems (place : Place) (l : Layout) : List Problem :=
  Problem.when (l.gap.any fun x => !isNonNegative x) (place.field "gap") .notNonNegative ++
    Problem.when (l.padding.any fun x => !isNonNegative x) (place.field "padding")
      .notNonNegative ++
    Problem.when (l.columns == some 0) (place.field "columns") .noColumns

/-- The problems of a style. -/
def Style.problems (place : Place) (s : Style) : List Problem :=
  Problem.when (s.radius.any fun x => !isNonNegative x) (place.field "radius") .notNonNegative

/-- The problems of a field. `seen` holds the names of the fields before it. -/
def Field.problems (place : Place) (seen : List String) (f : Field) : List Problem :=
  (if Text.isAllBlank f.name then [⟨place.field "name", .empty⟩]
    else Problem.when (seen.contains f.name) (place.field "name") (.duplicate f.name)) ++
    Problem.when (f.component == .select && (f.options.getD []).isEmpty) (place.field "options")
      .noOptions

/-- The problems of the fields from a position on. `seen` holds the names of those before. -/
def fieldProblems (place : Place) (index : Nat) (seen : List String) : List Field → List Problem
  | [] => []
  | f :: fs =>
    f.problems (place.item "fields" index) seen ++
      fieldProblems place (index + 1) (f.name :: seen) fs

mutual

/-- The problems of a node at a depth. -/
def Node.problems (place : Place) (depth : Nat) (n : Node) : List Problem :=
  if maxDepth < depth then [⟨place, .tooDeep maxDepth⟩]
  else n.style.problems (place.field "style") ++
    match n with
    | .text _ content _ => blankProblem (place.field "content") content
    | .image .. => []
    | .icon name _ => blankProblem (place.field "name") name
    | .button label _ => blankProblem (place.field "label") label
    | .frame layout _ children =>
      layout.problems (place.field "layout") ++ Node.problemsOfAll place (depth + 1) 0 children
    | .form name fields _ _ =>
      blankProblem (place.field "name") name ++
        Problem.when fields.isEmpty (place.field "fields") .empty ++
        fieldProblems place 0 [] fields
    | .list items _ => Node.problemsOfItems place (depth + 1) 0 items

/-- The problems of the children of a place from a position on, all at one depth. -/
def Node.problemsOfAll (place : Place) (depth index : Nat) : List Node → List Problem
  | [] => []
  | n :: ns =>
    Node.problems (place.item "children" index) depth n ++
      Node.problemsOfAll place depth (index + 1) ns

/-- The problems of the items of a place from a position on, all at one depth. -/
def Node.problemsOfItems (place : Place) (depth index : Nat) :
    List (Content Node) → List Problem
  | [] => []
  | .text _ :: cs => Node.problemsOfItems place depth (index + 1) cs
  | .node n :: cs =>
    Node.problems (place.item "items" index) depth n ++
      Node.problemsOfItems place depth (index + 1) cs

end

/-- The problems of a tree. -/
def Tree.problems (t : Tree) : List Problem :=
  Problem.when t.children.isEmpty [⟨"children", none⟩] .empty ++
    t.layout.problems [⟨"layout", none⟩] ++ t.style.problems [⟨"style", none⟩] ++
    Node.problemsOfAll [] 1 0 t.children

/-- Passes if a tree has no problems. -/
def Tree.validate (t : Tree) : Except (List Problem) Unit :=
  Problem.check t.problems

end Mockup.Ui
