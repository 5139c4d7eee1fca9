/-!
# Mixed content

The children of markup elements, of build nodes and the items of lists are texts or nodes.
`Content` is the type of one of them; `nodes` and `texts` pick out one kind in order.
-/

namespace Mockup

/-- A text or a node. -/
inductive Content (ν : Type) where
  | text (s : String)
  | node (n : ν)
  deriving Repr, DecidableEq, Inhabited

namespace Content

variable {ν : Type}

/-- The node, if it is one. -/
def node? : Content ν → Option ν
  | text _ => none
  | node n => some n

/-- The text, if it is one. -/
def text? : Content ν → Option String
  | text s => some s
  | node _ => none

/-- The nodes of a mixed list, in order. -/
def nodes (cs : List (Content ν)) : List ν :=
  cs.filterMap node?

/-- The texts of a mixed list, in order. -/
def texts (cs : List (Content ν)) : List String :=
  cs.filterMap text?

@[simp]
theorem nodes_nil : nodes ([] : List (Content ν)) = [] := rfl

@[simp]
theorem nodes_text (s : String) (cs : List (Content ν)) : nodes (text s :: cs) = nodes cs := rfl

@[simp]
theorem nodes_node (n : ν) (cs : List (Content ν)) : nodes (node n :: cs) = n :: nodes cs := rfl

end Content

end Mockup
