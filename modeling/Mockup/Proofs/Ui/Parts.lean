import Mockup.Proofs.Place
import Mockup.Proofs.Ui.Validity

/-!
# Parts of a tree and what can be wrong with them

The parts of a tree are its root, its nodes and the fields of its forms. Each is at the end of a
path of positions from the root, and what is wrong with it is said without its path: at which of its
own fields, and how. A violation of a tree is a flaw of a part, at the path of the part.

* `p.follow? path` — the part at the end of a path from a part.
* `p.Flaw depth rest complaint` — something is wrong with a part at a depth. The flaws of a node,
  a field, a layout, a style and the root say what.
* `t.Violation problem` — a problem is a flaw of a part of the tree. Nothing inside a node that is
  too deep is a violation.

## Main results

* `Part.follow?_cons_eq_some_iff`: what a path leads to, step by step.
* `Tree.Violation.isPlain`: the place of a violation can be told from its message.
* `Tree.Violation.leads`: the place of a violation tells the part that it is about.
-/

namespace Mockup.Ui

/-! ### Parts -/

/-- A part of a tree. -/
inductive Part where
  /-- The root. -/
  | root (t : Tree)
  /-- A node. -/
  | node (n : Node)
  /-- A field of a form, with the fields before it. -/
  | field (before : List Field) (f : Field)

namespace Part

/-- The name of the list that holds the parts directly below a part. -/
def listName : Part → String
  | .node (.list ..) => "items"
  | .node (.form ..) => "fields"
  | _ => "children"

/-- The list of the parts directly below a part. A text among the items of a list is no part. -/
def held : Part → List (Option Part)
  | .root t => t.children.map fun n => some (.node n)
  | .node (.frame _ _ children) => children.map fun n => some (.node n)
  | .node (.list items _) => items.map fun item => item.node?.map .node
  | .node (.form _ fields _ _) => fields.mapIdx fun i f => some (.field (fields.take i) f)
  | _ => []

/-- The part that a step leads to. -/
def step? (p : Part) (s : Step) : Option Part :=
  match s.index with
  | some i => if s.name = p.listName then p.held[i]?.join else none
  | none => none

/-- The part at the end of a path. -/
def follow? (p : Part) (path : Place) : Option Part :=
  path.foldlM step? p

theorem step?_eq_some_iff {p part : Part} {s : Step} : p.step? s = some part ↔
    ∃ i, s = ⟨p.listName, some i⟩ ∧ p.held[i]? = some (some part) := by
  obtain ⟨name, index⟩ := s
  cases index with
  | none => simp [step?]
  | some i => simp [step?, Option.join_eq_some_iff]

/-- A path leads to what its first step leads to, followed along the rest. -/
theorem follow?_cons_eq_some_iff {p part : Part} {s : Step} {path : Place} :
    p.follow? (s :: path) = some part ↔ ∃ i next, s = ⟨p.listName, some i⟩ ∧
      p.held[i]? = some (some next) ∧ next.follow? path = some part := by
  rw [follow?, List.foldlM_cons]
  simp only [bind, Option.bind_eq_some_iff, step?_eq_some_iff]
  constructor
  · rintro ⟨next, ⟨i, hs, hheld⟩, hpath⟩
    exact ⟨i, next, hs, hheld, hpath⟩
  · rintro ⟨i, next, hs, hheld, hpath⟩
    exact ⟨next, ⟨i, hs, hheld⟩, hpath⟩

end Part

/-! ### Flaws -/

/-- What is wrong with a style. -/
inductive Style.Flaw (s : Style) : Place → Complaint → Prop where
  /-- The radius is below zero or not finite. -/
  | radius {x : Float} (hradius : s.radius = some x) (hx : ¬ (x.isFinite = true ∧ 0.0 ≤ x)) :
    Flaw s [⟨"radius", none⟩] .notNonNegative

/-- What is wrong with a layout. -/
inductive Layout.Flaw (l : Layout) : Place → Complaint → Prop where
  /-- The distance between children is below zero or not finite. -/
  | gap {x : Float} (hgap : l.gap = some x) (hx : ¬ (x.isFinite = true ∧ 0.0 ≤ x)) :
    Flaw l [⟨"gap", none⟩] .notNonNegative
  /-- The distance from the edges is below zero or not finite. -/
  | padding {x : Float} (hpadding : l.padding = some x) (hx : ¬ (x.isFinite = true ∧ 0.0 ≤ x)) :
    Flaw l [⟨"padding", none⟩] .notNonNegative
  /-- There are no columns. -/
  | columns (hcolumns : l.columns = some 0) : Flaw l [⟨"columns", none⟩] .noColumns

/-- What is wrong with a field that has others before it. -/
inductive Field.Flaw (before : List Field) (f : Field) : Place → Complaint → Prop where
  /-- The name is blank. -/
  | blank (hblank : Text.isAllBlank f.name = true) : Flaw before f [⟨"name", none⟩] .empty
  /-- The name is that of a field before. -/
  | duplicate (hblank : Text.isAllBlank f.name = false) (hmem : f.name ∈ before.map Field.name) :
    Flaw before f [⟨"name", none⟩] (.duplicate f.name)
  /-- There is nothing to choose from. -/
  | options (hselect : f.component = .select) (hoptions : f.options.getD [] = []) :
    Flaw before f [⟨"options", none⟩] .noOptions

/-- What is wrong with a node itself. -/
inductive Node.Flaw : Node → Place → Complaint → Prop where
  /-- Something is wrong with its style. -/
  | style {n : Node} {rest : Place} {complaint : Complaint} (h : n.style.Flaw rest complaint) :
    Flaw n (⟨"style", none⟩ :: rest) complaint
  /-- A text is blank. -/
  | content {role : TextRole} {content : String} {style : Style}
    (hblank : Text.isAllBlank content = true) :
    Flaw (.text role content style) [⟨"content", none⟩] .empty
  /-- The name of an icon is blank. -/
  | iconName {name : String} {style : Style} (hblank : Text.isAllBlank name = true) :
    Flaw (.icon name style) [⟨"name", none⟩] .empty
  /-- The label of a button is blank. -/
  | label {label : String} {style : Style} (hblank : Text.isAllBlank label = true) :
    Flaw (.button label style) [⟨"label", none⟩] .empty
  /-- Something is wrong with the layout of a frame. -/
  | layout {layout : Layout} {style : Style} {children : List Node} {rest : Place}
    {complaint : Complaint} (h : layout.Flaw rest complaint) :
    Flaw (.frame layout style children) (⟨"layout", none⟩ :: rest) complaint
  /-- The name of a form is blank. -/
  | formName {name : String} {fields : List Field} {actions : Option FormActions} {style : Style}
    (hblank : Text.isAllBlank name = true) :
    Flaw (.form name fields actions style) [⟨"name", none⟩] .empty
  /-- A form has no fields. -/
  | fields {name : String} {actions : Option FormActions} {style : Style} :
    Flaw (.form name [] actions style) [⟨"fields", none⟩] .empty

/-- What is wrong with the root itself. -/
inductive Tree.Flaw (t : Tree) : Place → Complaint → Prop where
  /-- There is nothing in it. -/
  | children (hnil : t.children = []) : Flaw t [⟨"children", none⟩] .empty
  /-- Something is wrong with its layout. -/
  | layout {rest : Place} {complaint : Complaint} (h : t.layout.Flaw rest complaint) :
    Flaw t (⟨"layout", none⟩ :: rest) complaint
  /-- Something is wrong with its style. -/
  | style {rest : Place} {complaint : Complaint} (h : t.style.Flaw rest complaint) :
    Flaw t (⟨"style", none⟩ :: rest) complaint

/-- What is wrong with a part at a depth. The root has depth zero. -/
inductive Part.Flaw : Part → Nat → Place → Complaint → Prop where
  /-- Something is wrong with the root. -/
  | root {t : Tree} {depth : Nat} {rest : Place} {complaint : Complaint}
    (h : t.Flaw rest complaint) : Flaw (.root t) depth rest complaint
  /-- Something is wrong with a node that is not too deep. -/
  | node {n : Node} {depth : Nat} {rest : Place} {complaint : Complaint}
    (hdepth : depth ≤ maxDepth) (h : n.Flaw rest complaint) : Flaw (.node n) depth rest complaint
  /-- A node is too deep. -/
  | tooDeep {n : Node} {depth : Nat} (hdepth : maxDepth < depth) :
    Flaw (.node n) depth [] (.tooDeep maxDepth)
  /-- Something is wrong with a field. -/
  | field {before : List Field} {f : Field} {depth : Nat} {rest : Place} {complaint : Complaint}
    (h : f.Flaw before rest complaint) : Flaw (.field before f) depth rest complaint

/-- A problem is what is wrong with a part of a tree, at the path from the root to the part. The
parts inside a node that is too deep are left out. -/
def Tree.Violation (t : Tree) (problem : Problem) : Prop :=
  ∃ path part, (Part.root t).follow? path = some part ∧ path.length ≤ maxDepth + 1 ∧
    problem.IsAt path (part.Flaw path.length)

/-! ### Plain flaws -/

/-- What is wrong is said by plain names of fields, without positions, and by a complaint that
starts with a colon. -/
structure IsPlainFlaw (rest : Place) (complaint : Complaint) : Prop where
  /-- The names of the fields are plain. -/
  isPlain : ∀ s ∈ rest, s.IsPlain
  /-- There are no positions. -/
  indices : rest.indices = []
  /-- The complaint starts with a colon. -/
  colon : complaint.text.toList.head? = some ':'

section Plain

variable {rest : Place} {complaint : Complaint}

theorem IsPlainFlaw.cons {name : String} (hname : (⟨name, none⟩ : Step).IsPlain)
    (h : IsPlainFlaw rest complaint) : IsPlainFlaw (⟨name, none⟩ :: rest) complaint :=
  ⟨List.forall_mem_cons.2 ⟨hname, h.isPlain⟩, h.indices, h.colon⟩

theorem Style.Flaw.isPlainFlaw {s : Style} (h : s.Flaw rest complaint) :
    IsPlainFlaw rest complaint := by
  cases h
  exact ⟨by decide, rfl, rfl⟩

theorem Layout.Flaw.isPlainFlaw {l : Layout} (h : l.Flaw rest complaint) :
    IsPlainFlaw rest complaint := by
  cases h <;> exact ⟨by decide, rfl, rfl⟩

theorem Field.Flaw.isPlainFlaw {before : List Field} {f : Field}
    (h : f.Flaw before rest complaint) : IsPlainFlaw rest complaint := by
  cases h with
  | blank | options => exact ⟨by decide, rfl, rfl⟩
  | duplicate => exact ⟨by decide, rfl, head?_toList_append (head?_toList_append rfl _) _⟩

theorem Node.Flaw.isPlainFlaw {n : Node} (h : n.Flaw rest complaint) :
    IsPlainFlaw rest complaint := by
  cases h with
  | style h => exact h.isPlainFlaw.cons (by decide)
  | layout h => exact h.isPlainFlaw.cons (by decide)
  | content | iconName | label | formName | fields => exact ⟨by decide, rfl, rfl⟩

theorem Tree.Flaw.isPlainFlaw {t : Tree} (h : t.Flaw rest complaint) :
    IsPlainFlaw rest complaint := by
  cases h with
  | children => exact ⟨by decide, rfl, rfl⟩
  | layout h => exact h.isPlainFlaw.cons (by decide)
  | style h => exact h.isPlainFlaw.cons (by decide)

theorem Part.Flaw.isPlainFlaw {p : Part} {depth : Nat} (h : p.Flaw depth rest complaint) :
    IsPlainFlaw rest complaint := by
  cases h with
  | root h => exact h.isPlainFlaw
  | node _ h => exact h.isPlainFlaw
  | tooDeep => exact ⟨by decide, rfl, head?_toList_append rfl _⟩
  | field h => exact h.isPlainFlaw

theorem Part.isPlain_listName (p : Part) : (⟨p.listName, none⟩ : Step).IsPlain := by
  unfold listName
  split <;> decide

/-- Every step of a path is to an entry of a list of parts. -/
theorem Part.exists_eq_of_follow? {p part : Part} {path : Place} (h : p.follow? path = some part) :
    ∀ s ∈ path, ∃ (holder : Part) (i : Nat), s = ⟨holder.listName, some i⟩ := by
  induction path generalizing p with
  | nil => exact List.forall_mem_nil _
  | cons s path ih =>
    obtain ⟨i, next, rfl, -, hpath⟩ := follow?_cons_eq_some_iff.1 h
    exact List.forall_mem_cons.2 ⟨⟨p, i, rfl⟩, ih hpath⟩

end Plain

namespace Tree.Violation

variable {t : Tree} {problem : Problem}

/-- The place of a violation can be told from its message. -/
theorem isPlain (h : t.Violation problem) : problem.IsPlain := by
  obtain ⟨path, part, hfollow, -, ⟨hflaw⟩⟩ := h
  have hplain := hflaw.isPlainFlaw
  refine ⟨List.forall_mem_append.2 ⟨fun s hs => ?_, hplain.isPlain⟩, hplain.colon⟩
  obtain ⟨holder, i, rfl⟩ := Part.exists_eq_of_follow? hfollow s hs
  exact holder.isPlain_listName.item i

/-- The positions that the place of a violation starts with lead to the part that it is about. -/
theorem leads (h : t.Violation problem) :
    ∃ part, (Part.root t).follow? problem.place.route = some part ∧
      problem.IsAt problem.place.route (part.Flaw problem.place.route.length) := by
  obtain ⟨path, part, hfollow, -, ⟨hflaw⟩⟩ := h
  have hroute := Place.route_append (p := path) (fun s hs => ?_) hflaw.isPlainFlaw.indices
  · rw [hroute]
    exact ⟨part, hfollow, ⟨hflaw⟩⟩
  · obtain ⟨holder, i, rfl⟩ := Part.exists_eq_of_follow? hfollow s hs
    rfl

end Tree.Violation

end Mockup.Ui
