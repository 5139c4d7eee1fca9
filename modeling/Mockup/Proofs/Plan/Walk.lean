import Mockup.Plan.Mapping

/-!
# The nodes of a component that is built

A component of a plan starts from its key and gets classes, props and children. Only a step that
adds children changes what is inside it, and it adds them at the end. What is gathered from a
component, its texts, its keys, its props and its controls, rests on these equations.

* `n.content` — the texts and nodes inside a node.
* `n.descendants` — the nodes below a node, in pre-order.

## Main results

* `content_withChild`, `content_withNodes`: further children come last.
* `walk_eq`: a node and all below it.
-/

namespace Mockup

namespace BuildNode

/-- The texts and nodes inside a node. -/
def content (n : BuildNode) : List (Content BuildNode) :=
  n.children.getD []

/-- The nodes below a node, each before the ones that it holds. -/
def descendants (n : BuildNode) : List BuildNode :=
  walkAll n.content

/-- A node comes before the ones below it. -/
theorem walk_eq (n : BuildNode) : n.walk = n :: n.descendants := by
  obtain ⟨key, props, tailwind, children⟩ := n
  cases children with
  | none => rfl
  | some cs => rfl

theorem walkAll_append (cs ds : List (Content BuildNode)) :
    walkAll (cs ++ ds) = walkAll cs ++ walkAll ds := by
  induction cs with
  | nil => rfl
  | cons c cs ih =>
    cases c with
    | text s => exact ih
    | node n =>
      rw [List.cons_append, walkAll, walkAll, ih, List.append_assoc]

theorem walkAll_map_node (ns : List BuildNode) : walkAll (ns.map .node) = ns.flatMap walk := by
  induction ns with
  | nil => rfl
  | cons n ns ih => rw [List.map_cons, walkAll, ih, List.flatMap_cons]

section Building

variable (n : BuildNode)

/-! ### Props -/

@[simp] theorem key_withProp (name : String) (value : Json) :
    (n.withProp name value).key = n.key := rfl

@[simp] theorem props_withProp (name : String) (value : Json) :
    (n.withProp name value).props = some ((n.props.getD .empty).insert name value) := rfl

@[simp] theorem content_withProp (name : String) (value : Json) :
    (n.withProp name value).content = n.content := rfl

@[simp] theorem descendants_withProp (name : String) (value : Json) :
    (n.withProp name value).descendants = n.descendants := rfl

/-! ### Classes -/

@[simp] theorem key_withClasses (classes : String) : (n.withClasses classes).key = n.key := by
  unfold withClasses
  split <;> rfl

@[simp] theorem props_withClasses (classes : String) :
    (n.withClasses classes).props = n.props := by
  unfold withClasses
  split <;> rfl

@[simp] theorem content_withClasses (classes : String) :
    (n.withClasses classes).content = n.content := by
  unfold withClasses
  split <;> rfl

@[simp] theorem descendants_withClasses (classes : String) :
    (n.withClasses classes).descendants = n.descendants := by
  rw [descendants, content_withClasses, descendants]

/-! ### Children -/

@[simp] theorem key_withChild (c : Content BuildNode) : (n.withChild c).key = n.key := rfl

@[simp] theorem props_withChild (c : Content BuildNode) : (n.withChild c).props = n.props := rfl

@[simp] theorem content_withChild (c : Content BuildNode) :
    (n.withChild c).content = n.content ++ [c] := rfl

@[simp] theorem descendants_withChild (c : BuildNode) :
    (n.withChild (.node c)).descendants = n.descendants ++ c.walk := by
  rw [descendants, content_withChild, walkAll_append, walkAll, walkAll, List.append_nil,
    descendants]

@[simp] theorem key_withText (s : String) : (n.withText s).key = n.key := rfl

@[simp] theorem props_withText (s : String) : (n.withText s).props = n.props := rfl

@[simp] theorem content_withText (s : String) : (n.withText s).content = n.content ++ [.text s] :=
  rfl

@[simp] theorem descendants_withText (s : String) : (n.withText s).descendants = n.descendants := by
  rw [descendants, content_withText, walkAll_append, walkAll, walkAll, List.append_nil, descendants]

@[simp] theorem key_withNodes (ns : List BuildNode) : (n.withNodes ns).key = n.key := by
  unfold withNodes
  split <;> rfl

@[simp] theorem props_withNodes (ns : List BuildNode) : (n.withNodes ns).props = n.props := by
  unfold withNodes
  split <;> rfl

@[simp] theorem content_withNodes (ns : List BuildNode) :
    (n.withNodes ns).content = n.content ++ ns.map .node := by
  unfold withNodes
  split
  · next h =>
    rw [List.isEmpty_iff.1 h, List.map_nil, List.append_nil]
  · rfl

@[simp] theorem descendants_withNodes (ns : List BuildNode) :
    (n.withNodes ns).descendants = n.descendants ++ ns.flatMap walk := by
  rw [descendants, content_withNodes, walkAll_append, walkAll_map_node, descendants]

end Building

end BuildNode

end Mockup
