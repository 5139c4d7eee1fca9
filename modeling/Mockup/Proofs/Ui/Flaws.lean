import Mockup.Proofs.Ui.Parts

/-!
# Problems and flaws

The check of a part lists the problems of the part itself and then those of the parts below it. The
problems of the part itself are its flaws, each at the field that it is about, and no field is named
twice.

* `p.problems place depth` — what the check lists for a part at a place and a depth.
* `p.ownProblems place depth` — what it lists for the part itself.

## Main results

* `Part.mem_ownProblems_iff`: the problems of a part itself are its flaws.
* `Part.nodup_map_place_ownProblems`: they are at different places.
* `Part.problems_eq`: below a part that is not too deep the check goes on with the parts that it
  holds, in order.
-/

namespace Mockup

theorem Problem.mem_when_iff {c : Bool} {place : Place} {complaint : Complaint} {q : Problem} :
    q ∈ when c place complaint ↔ c = true ∧ q = ⟨place, complaint⟩ := by
  cases c <;> simp [when]

/-- A condition gives at most one problem, at its place. -/
theorem Problem.map_place_when (c : Bool) (place : Place) (complaint : Complaint) :
    ((when c place complaint).map Problem.place).Sublist [place] := by
  cases c
  · exact List.nil_sublist _
  · exact List.Sublist.refl _

namespace Ui

variable {place : Place} {q : Problem}

/-! ### Layouts, styles and fields -/

theorem any_not_isNonNegative_eq_true_iff {o : Option Float} :
    (o.any fun x => !isNonNegative x) = true ↔
      ∃ x, o = some x ∧ ¬ (x.isFinite = true ∧ 0.0 ≤ x) := by
  simp only [Option.any_eq_true, Bool.not_eq_true', ← isNonNegative_iff_le, Bool.not_eq_true]

theorem mem_blankProblem_iff {s : String} :
    q ∈ blankProblem place s ↔ Text.isAllBlank s = true ∧ q = ⟨place, .empty⟩ :=
  Problem.mem_when_iff

theorem Style.mem_problems_iff {s : Style} : q ∈ s.problems place ↔ q.IsAt place s.Flaw := by
  rw [problems, Problem.mem_when_iff, any_not_isNonNegative_eq_true_iff]
  constructor
  · rintro ⟨⟨x, hradius, hx⟩, rfl⟩
    exact ⟨.radius hradius hx⟩
  · rintro ⟨⟨hradius, hx⟩⟩
    exact ⟨⟨_, hradius, hx⟩, rfl⟩

theorem Layout.mem_problems_iff {l : Layout} : q ∈ l.problems place ↔ q.IsAt place l.Flaw := by
  simp only [problems, List.mem_append, Problem.mem_when_iff, any_not_isNonNegative_eq_true_iff,
    beq_iff_eq]
  constructor
  · rintro ((⟨⟨x, hgap, hx⟩, rfl⟩ | ⟨⟨x, hpadding, hx⟩, rfl⟩) | ⟨hcolumns, rfl⟩)
    · exact ⟨.gap hgap hx⟩
    · exact ⟨.padding hpadding hx⟩
    · exact ⟨.columns hcolumns⟩
  · rintro ⟨hflaw⟩
    cases hflaw with
    | gap hgap hx => exact .inl (.inl ⟨⟨_, hgap, hx⟩, rfl⟩)
    | padding hpadding hx => exact .inl (.inr ⟨⟨_, hpadding, hx⟩, rfl⟩)
    | columns hcolumns => exact .inr ⟨hcolumns, rfl⟩

theorem Field.mem_problems_iff {before : List Field} {f : Field} :
    q ∈ f.problems place (before.reverse.map Field.name) ↔ q.IsAt place (f.Flaw before) := by
  have hmem : (before.reverse.map Field.name).contains f.name = true ↔
      f.name ∈ before.map Field.name := by simp
  have hoptions : (f.component == .select && (f.options.getD []).isEmpty) = true ↔
      f.component = .select ∧ f.options.getD [] = [] := by simp
  rw [problems, List.mem_append, Problem.mem_when_iff, hoptions]
  -- A blank name is no duplicate, so at most one problem is about the name.
  constructor
  · rintro (h | ⟨⟨hselect, hnone⟩, rfl⟩)
    · split at h
      · next hblank =>
        obtain rfl := List.mem_singleton.1 h
        exact ⟨.blank hblank⟩
      · next hblank =>
        obtain ⟨hseen, rfl⟩ := Problem.mem_when_iff.1 h
        exact ⟨.duplicate (by simpa using hblank) (hmem.1 hseen)⟩
    · exact ⟨.options hselect hnone⟩
  · rintro ⟨hflaw⟩
    cases hflaw with
    | blank hblank => exact .inl (by rw [if_pos hblank]; exact List.mem_singleton_self _)
    | duplicate hblank hseen =>
      refine .inl ?_
      rw [if_neg (by simp [hblank])]
      exact Problem.mem_when_iff.2 ⟨hmem.2 hseen, rfl⟩
    | options hselect hnone => exact .inr ⟨⟨hselect, hnone⟩, rfl⟩

/-! ### Nodes -/

/-- The problems of a node that is not too deep, without those of the parts below it. -/
def Node.ownProblems (place : Place) (n : Node) : List Problem :=
  n.style.problems (place.field "style") ++
    match n with
    | .text _ content _ => blankProblem (place.field "content") content
    | .icon name _ => blankProblem (place.field "name") name
    | .button label _ => blankProblem (place.field "label") label
    | .frame layout _ _ => layout.problems (place.field "layout")
    | .form name fields _ _ =>
      blankProblem (place.field "name") name ++
        Problem.when fields.isEmpty (place.field "fields") .empty
    | .image .. | .list .. => []

theorem Node.mem_ownProblems_iff {n : Node} :
    q ∈ n.ownProblems place ↔ q.IsAt place n.Flaw := by
  constructor
  · intro h
    rcases List.mem_append.1 h with h | h
    · exact (Style.mem_problems_iff.1 h).of_field fun _ _ => .style
    -- What is not about the style is about what nodes of the kind have.
    cases n with
    | text role content style =>
      obtain ⟨hblank, rfl⟩ := mem_blankProblem_iff.1 h
      exact ⟨.content hblank⟩
    | icon name style =>
      obtain ⟨hblank, rfl⟩ := mem_blankProblem_iff.1 h
      exact ⟨.iconName hblank⟩
    | button label style =>
      obtain ⟨hblank, rfl⟩ := mem_blankProblem_iff.1 h
      exact ⟨.label hblank⟩
    | frame layout style children =>
      exact (Layout.mem_problems_iff.1 h).of_field fun _ _ => .layout
    | form name fields actions style =>
      rcases List.mem_append.1 h with h | h
      · obtain ⟨hblank, rfl⟩ := mem_blankProblem_iff.1 h
        exact ⟨.formName hblank⟩
      · obtain ⟨hnil, rfl⟩ := Problem.mem_when_iff.1 h
        obtain rfl := List.isEmpty_iff.1 hnil
        exact ⟨.fields⟩
    | image source description style => cases h
    | list items style => cases h
  · rintro ⟨hflaw⟩
    cases hflaw with
    | style h => exact List.mem_append_left _ (Style.mem_problems_iff.2 (Problem.isAt_field h))
    | content hblank | iconName hblank | label hblank =>
      exact List.mem_append_right _ (mem_blankProblem_iff.2 ⟨hblank, rfl⟩)
    | layout h => exact List.mem_append_right _ (Layout.mem_problems_iff.2 (Problem.isAt_field h))
    | formName hblank =>
      exact List.mem_append_right _ (List.mem_append_left _ (mem_blankProblem_iff.2 ⟨hblank, rfl⟩))
    | fields =>
      exact List.mem_append_right _ (List.mem_append_right _ (Problem.mem_when_iff.2 ⟨rfl, rfl⟩))

theorem Style.map_place_problems (place : Place) (s : Style) :
    ((s.problems place).map Problem.place).Sublist [place.field "radius"] :=
  Problem.map_place_when _ _ _

theorem Layout.map_place_problems (place : Place) (l : Layout) :
    ((l.problems place).map Problem.place).Sublist
      [place.field "gap", place.field "padding", place.field "columns"] := by
  rw [problems, List.map_append, List.map_append]
  exact ((Problem.map_place_when _ _ _).append (Problem.map_place_when _ _ _)).append
    (Problem.map_place_when _ _ _)

theorem Field.map_place_problems (place : Place) (seen : List String) (f : Field) :
    ((f.problems place seen).map Problem.place).Sublist
      [place.field "name", place.field "options"] := by
  rw [problems, List.map_append]
  refine List.Sublist.append (?_ : List.Sublist _ [place.field "name"])
    (Problem.map_place_when _ _ _)
  split
  · exact List.Sublist.refl _
  · exact Problem.map_place_when _ _ _

theorem Node.nodup_map_place_ownProblems (place : Place) (n : Node) :
    ((n.ownProblems place).map Problem.place).Nodup := by
  have hstyle := n.style.map_place_problems (place.field "style")
  unfold ownProblems
  rw [List.map_append]
  cases n with
  | text role content style | icon name style | button label style =>
    exact (hstyle.append (Problem.map_place_when _ _ _)).nodup (by simp [Place.field])
  | frame layout style children =>
    exact (hstyle.append (layout.map_place_problems _)).nodup (by simp [Place.field])
  | form name fields actions style =>
    rw [List.map_append]
    exact (hstyle.append ((Problem.map_place_when _ _ _).append
      (Problem.map_place_when _ _ _))).nodup (by simp [Place.field])
  | image source description style | list items style =>
    exact (hstyle.append (List.Sublist.refl _)).nodup (by simp [Place.field])

/-! ### Parts -/

namespace Part

/-- The problems of a part at a depth, without those of the parts below it. -/
def ownProblems (place : Place) (depth : Nat) : Part → List Problem
  | .root t =>
    Problem.when t.children.isEmpty (place.field "children") .empty ++
      t.layout.problems (place.field "layout") ++ t.style.problems (place.field "style")
  | .node n => if maxDepth < depth then [⟨place, .tooDeep maxDepth⟩] else n.ownProblems place
  | .field before f => f.problems place (before.reverse.map Field.name)

/-- The problems of a part at a depth. -/
def problems (place : Place) (depth : Nat) : Part → List Problem
  | .root t => (root t).ownProblems place depth ++ Node.problemsOfAll place (depth + 1) 0 t.children
  | .node n => n.problems place depth
  | .field before f => f.problems place (before.reverse.map Field.name)

/-- The problems of an entry of a list of parts. -/
def problemsAt (place : Place) (name : String) (depth : Nat) (x : Option Part × Nat) :
    List Problem :=
  x.1.elim [] (problems (place.item name x.2) depth)

theorem mem_ownProblems_iff {p : Part} {depth : Nat} :
    q ∈ p.ownProblems place depth ↔ q.IsAt place (p.Flaw depth) := by
  cases p with
  -- The flaws of a tree are those of its own layout and style, and that it has no nodes.
  | root t =>
    rw [ownProblems, List.mem_append, List.mem_append, Problem.mem_when_iff,
      Layout.mem_problems_iff, Style.mem_problems_iff, List.isEmpty_iff]
    constructor
    · rintro ((⟨hnil, rfl⟩ | h) | h)
      · exact ⟨.root (.children hnil)⟩
      · exact h.of_field fun _ _ hflaw => .root (.layout hflaw)
      · exact h.of_field fun _ _ hflaw => .root (.style hflaw)
    · rintro ⟨⟨hflaw⟩⟩
      cases hflaw with
      | children hnil => exact .inl (.inl ⟨hnil, rfl⟩)
      | layout h => exact .inl (.inr (Problem.isAt_field h))
      | style h => exact .inr (Problem.isAt_field h)
  | node n =>
    rw [ownProblems]
    split
    · next hdeep =>
      constructor
      · intro h
        obtain rfl := List.mem_singleton.1 h
        exact Problem.isAt_nil (.tooDeep hdeep)
      · rintro ⟨hflaw⟩
        cases hflaw with
        | node hdepth h => exact absurd hdeep (Nat.not_lt_of_le hdepth)
        | tooDeep hdepth => rw [List.append_nil, List.mem_singleton]
    · next hdeep =>
      rw [Node.mem_ownProblems_iff]
      constructor
      · rintro ⟨hflaw⟩
        exact ⟨.node (Nat.le_of_not_lt hdeep) hflaw⟩
      · rintro ⟨hflaw⟩
        cases hflaw with
        | node hdepth h => exact ⟨h⟩
        | tooDeep hdepth => exact absurd hdepth hdeep
  | field before f =>
    rw [ownProblems, Field.mem_problems_iff]
    constructor
    · rintro ⟨hflaw⟩
      exact ⟨.field hflaw⟩
    · rintro ⟨hflaw⟩
      cases hflaw with
      | field h => exact ⟨h⟩

theorem nodup_map_place_ownProblems (place : Place) (depth : Nat) (p : Part) :
    ((p.ownProblems place depth).map Problem.place).Nodup := by
  cases p with
  | root t =>
    rw [ownProblems, List.map_append, List.map_append]
    exact (((Problem.map_place_when _ _ _).append (t.layout.map_place_problems _)).append
      (t.style.map_place_problems _)).nodup (by simp [Place.field])
  | node n =>
    rw [ownProblems]
    split
    · exact List.nodup_singleton _
    · exact n.nodup_map_place_ownProblems place
  | field before f => exact (f.map_place_problems _ _).nodup (by simp [Place.field])

theorem problemsOfAll_eq (place : Place) (depth index : Nat) (ns : List Node) :
    Node.problemsOfAll place depth index ns =
      ((ns.map fun n => some (node n)).zipIdx index).flatMap
        (problemsAt place "children" depth) := by
  induction ns generalizing index with
  | nil => rfl
  | cons n ns ih =>
    rw [Node.problemsOfAll, ih, List.map_cons, List.zipIdx_cons, List.flatMap_cons]
    rfl

theorem problemsOfItems_eq (place : Place) (depth index : Nat) (items : List (Content Node)) :
    Node.problemsOfItems place depth index items =
      ((items.map fun item => item.node?.map node).zipIdx index).flatMap
        (problemsAt place "items" depth) := by
  induction items generalizing index with
  | nil => rfl
  | cons item items ih =>
    rw [List.map_cons, List.zipIdx_cons, List.flatMap_cons, ← ih]
    cases item <;> rfl

theorem fieldProblems_eq (place : Place) (depth : Nat) (before fields : List Field) :
    fieldProblems place before.length (before.reverse.map Field.name) fields =
      ((fields.mapIdx fun i f => some (field (before ++ fields.take i) f)).zipIdx
        before.length).flatMap (problemsAt place "fields" depth) := by
  induction fields generalizing before with
  | nil => rfl
  | cons f fields ih =>
    -- For the later fields the first one is among those before.
    have hseen : f.name :: before.reverse.map Field.name =
        (before ++ [f]).reverse.map Field.name := by
      rw [List.reverse_append, List.reverse_singleton, List.singleton_append, List.map_cons]
    have hlength : before.length + 1 = (before ++ [f]).length := by simp
    have htake : (fun i g => some (field (before ++ (f :: fields).take (i + 1)) g)) =
        fun i g => some (field ((before ++ [f]) ++ fields.take i) g) := by
      simp
    rw [fieldProblems, hseen, hlength, ih, List.mapIdx_cons, List.zipIdx_cons, List.flatMap_cons,
      htake, ← hlength, List.take_zero, List.append_nil]
    rfl

/-- The problems of a part that is not too deep are its own and those of the parts below it. -/
theorem problems_eq (place : Place) {depth : Nat} (p : Part) (hdepth : depth ≤ maxDepth) :
    p.problems place depth = p.ownProblems place depth ++
      p.held.zipIdx.flatMap (problemsAt place p.listName (depth + 1)) := by
  cases p with
  | root t => rw [problems, problemsOfAll_eq]; rfl
  | field before f => exact (List.append_nil _).symm
  | node n =>
    rw [problems, ownProblems, Node.problems.eq_def, if_neg (Nat.not_lt_of_le hdepth),
      if_neg (Nat.not_lt_of_le hdepth), Node.ownProblems.eq_def, List.append_assoc]
    -- The problems of the style come first. What follows them is listed kind by kind.
    refine congrArg (n.style.problems (place.field "style") ++ ·) ?_
    cases n with
    | text role content style | icon name style | button label style =>
      exact (List.append_nil _).symm
    | image source description style => rfl
    | frame layout style children =>
      exact congrArg (layout.problems _ ++ ·) (problemsOfAll_eq place (depth + 1) 0 children)
    | form name fields actions style =>
      exact congrArg (_ ++ ·) (fieldProblems_eq place (depth + 1) [] fields)
    | list items style => exact problemsOfItems_eq place (depth + 1) 0 items

end Part

end Ui

end Mockup
