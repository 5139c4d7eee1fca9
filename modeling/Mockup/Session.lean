import Mockup.Failure
import Mockup.Jsx.OfPlan
import Mockup.Jsx.OfTree
import Mockup.Json.Reader
import Mockup.Palette.Builtin
import Mockup.Patch.Request
import Mockup.Proposal
import Mockup.Ui.Inference
import Mockup.Ui.Interchange

/-!
# Sessions

A session has settings and a palette. `generate` turns a mockup into a component file by way of
its features, the tree of its user interface and a plan; `generateWith` asks an oracle for the
tree and the plan. Patches edit component files.
-/

namespace Mockup

/-- Settings and a palette. -/
structure Session where
  /-- The settings. -/
  config : Config := {}
  /-- The palette. -/
  palette : Palette := .builtin

/-- What a component is asked for. -/
structure GenerateRequest where
  /-- The mockup. -/
  markup : String
  /-- The name of the component. -/
  name : String := ""
  deriving DecidableEq, Repr

/-- A component file and what it came from. -/
structure Generated where
  /-- The features of the mockup. -/
  features : List Markup.Feature
  /-- The tree of the user interface. -/
  tree : Ui.Tree
  /-- The plan. -/
  plan : BuildPlan
  /-- The text of the component file. -/
  code : String
  /-- The path of the component file. -/
  path : String
  /-- All remarks. -/
  warnings : List Warning

namespace Session

/-- The mockup that a text writes. -/
def readMarkup (s : Session) (markup : String) : Except Failure Markup.Element :=
  (Markup.Element.read s.config.limits markup).mapError .markup

/-- The features of the mockup that a text writes. -/
def featuresOf (s : Session) (markup : String) : Except Failure (List Markup.Feature) :=
  (s.readMarkup markup).map fun e => e.features

/-- The name of a component that is asked for, where blank stands for the default name. -/
def requestedName (requested : String) : String :=
  if Text.isAllBlank requested then Jsx.defaultName else requested

/-- The component file of a plan, with the remarks that were made before. -/
def finish (s : Session) (features : List Markup.Feature) (tree : Ui.Tree) (plan : BuildPlan)
    (warnings : List Warning) : Generated :=
  let file := Jsx.ComponentFile.ofPlan s.palette s.config.outputDirectory plan
  { features, tree, plan
    code := file.code
    path := file.path
    warnings := warnings ++ file.warnings }

/-- The component of a mockup. -/
def generate (s : Session) (r : GenerateRequest) : Except Failure Generated := do
  let root ← s.readMarkup r.markup
  let requested := requestedName r.name
  let name := Jsx.componentName requested
  let tree := Ui.Tree.ofMarkup {} root
  let planned := BuildPlan.ofTree s.palette tree name
  return s.finish root.features tree planned.plan
    (Jsx.nameWarnings requested name ++ planned.warnings)

/-- The component of a mockup for which an oracle is asked for the tree and the plan. Where no
proposal can be used, the tree and the plan are those of `generate`. -/
def generateWith (s : Session) (oracle : Oracle) (r : GenerateRequest) :
    Except Failure Generated := do
  let root ← s.readMarkup r.markup
  let features := root.features
  let requested := requestedName r.name
  let name := Jsx.componentName requested
  let timeout := s.config.oracleTimeout
  let proposed := (oracle.tree r.markup features).agreed timeout Ui.Tree.validate
  let (tree, warnings) := match proposed with
    | .ok tree => (tree, [])
    | .error e => (Ui.Tree.ofMarkup {} root, [.noProposal "uiTree" e.message])
  let planned := BuildPlan.proposed s.palette timeout (oracle.plan tree s.palette.keys) tree name
  return s.finish features tree planned.plan
    (Jsx.nameWarnings requested name ++ warnings ++ planned.warnings)

end Session

/-! ### Patches -/

namespace Patch

/-- The request that a text writes. -/
def Request.read (text : String) : Except Failure Request :=
  match Json.read? text with
  | none => .error .jsonSyntax
  | some j => Failure.ofProblems (Request.ofJson j)

/-- Runs a valid request on one text. -/
def Request.patch (r : Request) (source : String) : Except Failure Result := do
  Failure.ofProblems r.validate
  return r.applyTo source

/-- Runs a valid request on several files. -/
def Request.patchFiles (r : Request) (files : Dict String) :
    Except Failure (Dict String × Result) := do
  Failure.ofProblems r.validate
  return r.applyToFiles files

/-- Runs the request that a text writes on another text. -/
def patchJson (source text : String) : Except Failure Result := do
  let r ← Request.read text
  r.patch source

end Patch

/-! ### Interchange -/

namespace GenerateRequest

/-- A request as an object. -/
def encode (r : GenerateRequest) : Json :=
  .object [("markup", .string r.markup), ("name", .string r.name)]

/-- A request from an object or a sequence. -/
def decode (j : Json) : Decoded GenerateRequest :=
  Json.asStruct .direct "GenerateRequest" j <|
    GenerateRequest.mk <$> .required "markup" Json.asString <*> .defaulted "name" "" Json.asString

end GenerateRequest

/-- A component file and what it came from as an object. -/
def Generated.encode (g : Generated) : Json :=
  .object [("features", .array (g.features.map Markup.Feature.encode)), ("tree", g.tree.encode),
    ("plan", g.plan.encode), ("code", .string g.code), ("filePath", .string g.path),
    ("warnings", .array (g.warnings.map Warning.encode))]

/-- A component file as an object. -/
def Jsx.ComponentFile.encode (f : Jsx.ComponentFile) : Json :=
  .object [("name", .string f.name), ("filePath", .string f.path), ("code", .string f.code),
    ("warnings", .array (f.warnings.map Warning.encode))]

end Mockup
