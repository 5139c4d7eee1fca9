/-!
# XML documents

The tree of a document below its root. Names are local names, without the prefix that stands for
their namespace.
-/

namespace Mockup.Xml

/-- A node of a document. -/
inductive Node where
  /-- An element with its attributes and children, all in document order. -/
  | element (name : String) (attributes : List (String × String)) (children : List Node)
  /-- A run of text. -/
  | text (s : String)
  /-- A comment. -/
  | comment (s : String)
  /-- A processing instruction. -/
  | instruction (target : String)
  deriving Repr, Inhabited

/-- A document: its outermost element. -/
structure Document where
  /-- The name of the element. -/
  name : String
  /-- Its attributes. -/
  attributes : List (String × String)
  /-- Its children. -/
  children : List Node
  deriving Repr, Inhabited

/-- The outermost element as a node. -/
def Document.root (d : Document) : Node :=
  .element d.name d.attributes d.children

end Mockup.Xml
