import Mockup.Content
import Mockup.Json.Decode
import Mockup.Text.Blank

/-!
# Build plans

A plan is a tree of components, each named by its key in a palette, with the props, classes and
children that are its own. `BuildNode.walk` lists the nodes of a tree, each before the ones below
it.
-/

namespace Mockup

/-- A component of a plan. -/
structure BuildNode where
  /-- The key of the component in the palette. -/
  key : String
  /-- The props beside those that the component always has. -/
  props : Option (Dict Json) := none
  /-- The classes beside those that the component always has. -/
  tailwind : Option String := none
  /-- The texts and components inside it. -/
  children : Option (List (Content BuildNode)) := none

/-- A tree of components under a name. -/
structure BuildPlan where
  /-- The name of the component that is built. -/
  name : String
  /-- The import lines that its components need. -/
  imports : List String := []
  /-- The outermost component. -/
  root : BuildNode

namespace BuildNode

instance : Inhabited BuildNode := ⟨{ key := "" }⟩

/-- Gives the node classes, unless they are blank. -/
def withClasses (n : BuildNode) (classes : String) : BuildNode :=
  if Text.isAllBlank classes then n else { n with tailwind := some classes }

/-- Gives the node a prop. -/
def withProp (n : BuildNode) (name : String) (value : Json) : BuildNode :=
  { n with props := some ((n.props.getD .empty).insert name value) }

/-- Adds a child at the end. -/
def withChild (n : BuildNode) (child : Content BuildNode) : BuildNode :=
  { n with children := some (n.children.getD [] ++ [child]) }

/-- Adds a text at the end. -/
def withText (n : BuildNode) (s : String) : BuildNode :=
  n.withChild (.text s)

/-- Adds nodes at the end; without nodes the node stays as it is. -/
def withNodes (n : BuildNode) (nodes : List BuildNode) : BuildNode :=
  if nodes.isEmpty then n
  else { n with children := some (n.children.getD [] ++ nodes.map .node) }

mutual

/-- A node and all below it, each before the ones that it holds. -/
def walk : BuildNode → List BuildNode
  | ⟨key, props, tailwind, children⟩ => ⟨key, props, tailwind, children⟩ :: walkChildren children

/-- The nodes below a node that may have children. -/
def walkChildren : Option (List (Content BuildNode)) → List BuildNode
  | none => []
  | some cs => walkAll cs

/-- The nodes in a list of children and all below them. -/
def walkAll : List (Content BuildNode) → List BuildNode
  | [] => []
  | .text _ :: cs => walkAll cs
  | .node n :: cs => walk n ++ walkAll cs

end

mutual

/-- The same tree with every key replaced. -/
def mapKeys (f : String → String) : BuildNode → BuildNode
  | ⟨key, props, tailwind, children⟩ =>
    ⟨f key, props, tailwind, mapKeysOfChildren f children⟩

/-- The children with every key replaced, if there are any. -/
def mapKeysOfChildren (f : String → String) :
    Option (List (Content BuildNode)) → Option (List (Content BuildNode))
  | none => none
  | some cs => some (mapKeysOfAll f cs)

/-- A list of children with every key replaced. -/
def mapKeysOfAll (f : String → String) : List (Content BuildNode) → List (Content BuildNode)
  | [] => []
  | .text s :: cs => .text s :: mapKeysOfAll f cs
  | .node n :: cs => .node (mapKeys f n) :: mapKeysOfAll f cs

end

/-- The keys of a node and all below it. -/
def keys (n : BuildNode) : List String :=
  n.walk.map (·.key)

end BuildNode

/-- The texts of a list without repetitions, in the order of their first occurrence. -/
def firstSeen (ss : List String) : List String :=
  ss.foldl (fun seen s => if seen.contains s then seen else seen ++ [s]) []

/-- The keys of a plan, each once, in the order of their first occurrence. -/
def BuildPlan.componentKeys (p : BuildPlan) : List String :=
  firstSeen p.root.keys

/-! ### Interchange -/

namespace BuildNode

mutual

/-- A node as an object. -/
def encode : BuildNode → Json
  | ⟨key, props, tailwind, children⟩ =>
    .object ([("componentKey", .string key)] ++ Json.optional "props" (Json.ofDict id) props ++
      Json.optional "tailwind" .string tailwind ++ encodeChildren children)

/-- The field for the children, if there are any. -/
def encodeChildren : Option (List (Content BuildNode)) → List (String × Json)
  | none => []
  | some cs => [("children", .array (encodeAll cs))]

/-- Each child as a string or an object. -/
def encodeAll : List (Content BuildNode) → List Json
  | [] => []
  | .text s :: cs => .string s :: encodeAll cs
  | .node n :: cs => encode n :: encodeAll cs

end

/-- A node from an object or a sequence. -/
def decode (j : Json) : Decoded BuildNode :=
  Json.asStruct .direct "BuildNode" j <|
    BuildNode.mk <$> .required "componentKey" Json.asString <*>
      .nullable "props" (Json.asDict Except.ok) <*> .nullable "tailwind" Json.asString <*>
      .field "children" (some none) fun k _ => Json.orNull k <| k.asList fun c _ =>
        Json.asContent "BuildChild" c (decode c)
termination_by sizeOf j

/-- A child from a string, an object or a sequence. What is wrong with it is not told. -/
def decodeChild (j : Json) : Decoded (Content BuildNode) :=
  Json.asContent "BuildChild" j (decode j)

end BuildNode

namespace BuildPlan

/-- A plan as an object. -/
def encode (p : BuildPlan) : Json :=
  .object [("name", .string p.name), ("imports", Json.strings p.imports),
    ("root", p.root.encode)]

/-- A plan from an object or a sequence. -/
def decode (j : Json) : Decoded BuildPlan :=
  Json.asStruct .direct "BuildPlan" j <|
    BuildPlan.mk <$> .required "name" Json.asString <*> .defaulted "imports" [] Json.asStrings <*>
      .required "root" BuildNode.decode

end BuildPlan

end Mockup
