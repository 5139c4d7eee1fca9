import Mathlib.Tactic.Tauto
import Mockup.Ui.Validity

/-!
# What a valid tree is

A tree passes its check exactly if it holds something, if every layout, style and node in it is
right on its own, and if no node is too deep.

* `l.IsValid`, `s.IsValid`, `f.IsValid` — a layout, a style or a field has no problem of its own.
* `n.IsValid` — a node has no problem of its own, whatever is inside it.
* `n.height` — the number of levels of a node.

## Main results

* `Node.problems_eq_nil_iff`: when a node at a depth has no problems.
* `Tree.validate_eq_ok_iff`: when a tree passes its check.
-/

namespace Mockup

/-- A condition that does not hold gives no problem. -/
theorem Problem.when_eq_nil_iff {c : Bool} {place : Place} {complaint : Complaint} :
    when c place complaint = [] ↔ c = false := by
  cases c <;> simp [when]

namespace Ui

/-! ### Numbers -/

/-- A number is finite exactly if it is a number and not infinite. -/
theorem isFinite_eq (x : Float) : x.isFinite = (!x.isNaN && !x.isInf) := by
  simp only [Float.isFinite, Float.isNaN, Float.isInf, Float.Model.isFinite, Float.Model.isNaN,
    Float.Model.isInf]
  cases x.toModel.unpack <;> rfl

theorem isNonNegative_iff {x : Float} :
    isNonNegative x = true ↔ ¬ x < 0.0 ∧ x.isInf = false ∧ x.isNaN = false := by
  simp only [isNonNegative, isFinite_eq, Bool.and_eq_true, Bool.not_eq_true',
    decide_eq_false_iff_not]
  tauto

/-- Of the finite numbers, those that are not below zero are at least zero. -/
theorem isNonNegative_eq (x : Float) :
    isNonNegative x = (x.isFinite && decide (0.0 ≤ x)) := by
  have hzero : (Float.toModel 0.0).unpack = .zero .positive := rfl
  simp only [isNonNegative, LT.lt, Float.lt, LE.le, Float.le, Float.Model.lt, Float.Model.le,
    Float.isFinite, Float.Model.isFinite, hzero]
  rcases x.toModel.unpack with (_ | _) | _ | _ | ⟨_ | _, _, _, _⟩ <;> rfl

theorem isNonNegative_iff_le {x : Float} :
    isNonNegative x = true ↔ x.isFinite = true ∧ 0.0 ≤ x := by
  rw [isNonNegative_eq, Bool.and_eq_true, decide_eq_true_iff]

/-! ### Parts of a node -/

/-- A layout has no problem: its distances are finite and not below zero, and it has columns. -/
structure Layout.IsValid (l : Layout) : Prop where
  /-- The distance between children. -/
  gap : ∀ x ∈ l.gap, isNonNegative x = true
  /-- The distance from the edges. -/
  padding : ∀ x ∈ l.padding, isNonNegative x = true
  /-- The number of columns. -/
  columns : l.columns ≠ some 0

instance (l : Layout) : Decidable l.IsValid :=
  decidable_of_iff
    ((∀ x ∈ l.gap, isNonNegative x = true) ∧ (∀ x ∈ l.padding, isNonNegative x = true) ∧
      l.columns ≠ some 0)
    ⟨fun ⟨hgap, hpadding, hcolumns⟩ => ⟨hgap, hpadding, hcolumns⟩,
      fun ⟨hgap, hpadding, hcolumns⟩ => ⟨hgap, hpadding, hcolumns⟩⟩

/-- A style has no problem: its radius is finite and not below zero. -/
def Style.IsValid (s : Style) : Prop :=
  ∀ x ∈ s.radius, isNonNegative x = true

theorem Style.isValid_of_radius {s : Style} {x : Float} (hradius : s.radius = some x)
    (hx : isNonNegative x = true) : s.IsValid := by
  intro y hy
  cases hradius.symm.trans hy
  exact hx

/-- A field has no problem of its own. -/
structure Field.IsValid (f : Field) : Prop where
  /-- Its name is not blank. -/
  name : Text.isAllBlank f.name = false
  /-- A choice has options. -/
  options : f.component = .select → f.options.getD [] ≠ []

/-- The absent number and the numbers that are finite and not below zero give no problem. -/
theorem any_not_isNonNegative_eq_false_iff {o : Option Float} :
    (o.any fun x => !isNonNegative x) = false ↔ ∀ x ∈ o, isNonNegative x = true := by
  cases o <;> simp

theorem Layout.problems_eq_nil_iff {place : Place} {l : Layout} :
    l.problems place = [] ↔ l.IsValid := by
  simp only [problems, List.append_eq_nil_iff, Problem.when_eq_nil_iff,
    any_not_isNonNegative_eq_false_iff, beq_eq_false_iff_ne]
  exact ⟨fun ⟨⟨hgap, hpadding⟩, hcolumns⟩ => ⟨hgap, hpadding, hcolumns⟩,
    fun ⟨hgap, hpadding, hcolumns⟩ => ⟨⟨hgap, hpadding⟩, hcolumns⟩⟩

theorem Style.problems_eq_nil_iff {place : Place} {s : Style} :
    s.problems place = [] ↔ s.IsValid := by
  rw [problems, Problem.when_eq_nil_iff, any_not_isNonNegative_eq_false_iff, IsValid]

theorem blankProblem_eq_nil_iff {place : Place} {s : String} :
    blankProblem place s = [] ↔ Text.isAllBlank s = false :=
  Problem.when_eq_nil_iff

theorem Field.problems_eq_nil_iff {place : Place} {seen : List String} {f : Field} :
    f.problems place seen = [] ↔ f.IsValid ∧ f.name ∉ seen := by
  have hoptions : (f.component == .select && (f.options.getD []).isEmpty) = false ↔
      (f.component = .select → f.options.getD [] ≠ []) := by
    by_cases h : f.component = .select <;> simp [h]
  rw [problems, List.append_eq_nil_iff, Problem.when_eq_nil_iff, hoptions]
  by_cases hblank : Text.isAllBlank f.name
  · rw [if_pos hblank]
    constructor
    · rintro ⟨h, -⟩
      cases h
    · rintro ⟨hvalid, -⟩
      rw [hvalid.name] at hblank
      cases hblank
  · rw [if_neg hblank, Problem.when_eq_nil_iff]
    constructor
    · rintro ⟨hseen, hselect⟩
      exact ⟨⟨by simpa using hblank, hselect⟩, by simpa using hseen⟩
    · rintro ⟨hvalid, hseen⟩
      exact ⟨by simpa using hseen, hvalid.options⟩

/-- Fields have no problems if each is valid, and their names differ and were not seen before. -/
theorem fieldProblems_eq_nil_iff {place : Place} {index : Nat} {seen : List String}
    {fields : List Field} :
    fieldProblems place index seen fields = [] ↔ (∀ f ∈ fields, f.IsValid) ∧
      (fields.map Field.name).Nodup ∧ ∀ f ∈ fields, f.name ∉ seen := by
  induction fields generalizing index seen with
  | nil => simp [fieldProblems]
  | cons f fs ih =>
    rw [fieldProblems, List.append_eq_nil_iff, Field.problems_eq_nil_iff, ih, List.map_cons,
      List.nodup_cons, List.forall_mem_cons, List.forall_mem_cons]
    -- The names of the other fields were not seen before and are not the name of this one.
    have hseen : (∀ g ∈ fs, g.name ∉ f.name :: seen) ↔
        f.name ∉ fs.map Field.name ∧ ∀ g ∈ fs, g.name ∉ seen := by
      simp only [List.mem_cons, not_or, List.mem_map, not_exists, not_and]
      exact ⟨fun h => ⟨fun g hg => (h g hg).1, fun g hg => (h g hg).2⟩,
        fun ⟨hne, hnew⟩ g hg => ⟨hne g hg, hnew g hg⟩⟩
    rw [hseen]
    tauto

/-! ### Nodes -/

/-- A node has no problem of its own, whatever is inside it. -/
def Node.IsValid : Node → Prop
  | .text _ content style => style.IsValid ∧ Text.isAllBlank content = false
  | .image _ _ style => style.IsValid
  | .icon name style => style.IsValid ∧ Text.isAllBlank name = false
  | .frame layout style _ => style.IsValid ∧ layout.IsValid
  | .form name fields _ style =>
    style.IsValid ∧ Text.isAllBlank name = false ∧ fields ≠ [] ∧ (∀ f ∈ fields, f.IsValid) ∧
      (fields.map Field.name).Nodup
  | .list _ style => style.IsValid
  | .button label style => style.IsValid ∧ Text.isAllBlank label = false

namespace Node

mutual

/-- The number of levels of a node; a node without nodes in it has one. -/
def height : Node → Nat
  | .frame _ _ children => heightOfAll children + 1
  | .list items _ => heightOfItems items + 1
  | _ => 1

/-- The number of levels of the nodes of a list. -/
def heightOfAll : List Node → Nat
  | [] => 0
  | n :: ns => max (height n) (heightOfAll ns)

/-- The number of levels of the nodes among the items of a list. -/
def heightOfItems : List (Content Node) → Nat
  | [] => 0
  | .text _ :: cs => heightOfItems cs
  | .node n :: cs => max (height n) (heightOfItems cs)

end

theorem one_le_height (n : Node) : 1 ≤ n.height := by
  cases n <;> simp [height]

mutual

/-- A node at a depth has no problems exactly if it and all below it are valid, and its levels do
not go below the greatest depth. -/
theorem problems_eq_nil_iff : ∀ (n : Node) (place : Place) (depth : Nat),
    n.problems place depth = [] ↔
      (∀ m ∈ n.walk, m.IsValid) ∧ depth + n.height ≤ maxDepth + 1
  | n, place, depth => by
    have hheight := n.one_le_height
    rw [problems.eq_def]
    -- Below the greatest depth every node is a problem, and every node has a level.
    by_cases hdeep : maxDepth < depth
    · rw [if_pos hdeep]
      constructor
      · intro h
        cases h
      · rintro ⟨-, h⟩
        omega
    have hle : depth + 1 ≤ maxDepth + 1 := by omega
    rw [if_neg hdeep, List.append_eq_nil_iff, Style.problems_eq_nil_iff]
    cases n with
    | text role content style =>
      simp [walk, height, IsValid, Node.style, blankProblem_eq_nil_iff, hle]
    | image source description style => simp [walk, height, IsValid, Node.style, hle]
    | icon name style =>
      simp [walk, height, IsValid, Node.style, blankProblem_eq_nil_iff, hle]
    | button label style =>
      simp [walk, height, IsValid, Node.style, blankProblem_eq_nil_iff, hle]
    | form name fields actions style =>
      simp [walk, height, IsValid, Node.style, blankProblem_eq_nil_iff, hle,
        Problem.when_eq_nil_iff, fieldProblems_eq_nil_iff]
    | frame layout style children =>
      rw [walk, List.forall_mem_cons, height, ← Nat.add_assoc, Nat.add_right_comm]
      simp only [IsValid, Node.style, List.append_eq_nil_iff, Layout.problems_eq_nil_iff,
        problemsOfAll_eq_nil_iff children _ _ _ hle, and_assoc]
    | list items style =>
      rw [walk, List.forall_mem_cons, height, ← Nat.add_assoc, Nat.add_right_comm]
      simp only [IsValid, Node.style, problemsOfItems_eq_nil_iff items _ _ _ hle, and_assoc]

theorem problemsOfAll_eq_nil_iff : ∀ (ns : List Node) (place : Place) (depth index : Nat),
    depth ≤ maxDepth + 1 → (problemsOfAll place depth index ns = [] ↔
      (∀ m ∈ walkAll ns, m.IsValid) ∧ depth + heightOfAll ns ≤ maxDepth + 1)
  | [], place, depth, index, hdepth => by simp [problemsOfAll, walkAll, heightOfAll, hdepth]
  | n :: ns, place, depth, index, hdepth => by
    rw [problemsOfAll, List.append_eq_nil_iff, problems_eq_nil_iff n,
      problemsOfAll_eq_nil_iff ns _ _ _ hdepth, walkAll, List.forall_mem_append, heightOfAll,
      ← Nat.add_max_add_left, Nat.max_le]
    tauto

theorem problemsOfItems_eq_nil_iff : ∀ (cs : List (Content Node)) (place : Place)
    (depth index : Nat), depth ≤ maxDepth + 1 → (problemsOfItems place depth index cs = [] ↔
      (∀ m ∈ walkItems cs, m.IsValid) ∧ depth + heightOfItems cs ≤ maxDepth + 1)
  | [], place, depth, index, hdepth => by
    simp [problemsOfItems, walkItems, heightOfItems, hdepth]
  | .text _ :: cs, place, depth, index, hdepth => by
    rw [problemsOfItems, walkItems, heightOfItems]
    exact problemsOfItems_eq_nil_iff cs place depth _ hdepth
  | .node n :: cs, place, depth, index, hdepth => by
    rw [problemsOfItems, List.append_eq_nil_iff, problems_eq_nil_iff n,
      problemsOfItems_eq_nil_iff cs _ _ _ hdepth, walkItems, List.forall_mem_append,
      heightOfItems, ← Nat.add_max_add_left, Nat.max_le]
    tauto

end

end Node

/-! ### Trees -/

/-- A tree passes its check exactly if it holds something, if its layout, its style and all its
nodes are valid, and if it has no more levels than may be. -/
theorem Tree.validate_eq_ok_iff {t : Tree} :
    t.validate = .ok () ↔ t.children ≠ [] ∧ t.layout.IsValid ∧ t.style.IsValid ∧
      (∀ n ∈ t.walk, n.IsValid) ∧ Node.heightOfAll t.children ≤ maxDepth := by
  rw [validate, Problem.check_eq_ok_iff, problems]
  simp only [List.append_eq_nil_iff, Problem.when_eq_nil_iff, Layout.problems_eq_nil_iff,
    Style.problems_eq_nil_iff, Node.problemsOfAll_eq_nil_iff t.children [] 1 0 (by decide), walk,
    Nat.add_comm 1, Nat.add_le_add_iff_right, List.isEmpty_eq_false_iff, and_assoc, ne_eq]

end Ui

end Mockup
