import Mockup.CommandLine.Arguments
import Mockup.ConfigFile
import Mockup.Disk.Path
import Mockup.Disk.Program
import Mockup.Json.Printer
import Mockup.Palette.Catalog
import Mockup.Session

/-!
# Commands

What each command reads, writes and reports, as a program that uses files. A failure ends a command;
what was reported before stays.
-/

namespace Mockup.CommandLine

open Disk

/-- What a command leaves behind beside files. -/
structure Report where
  /-- The exit code. -/
  exit : Nat := 0
  /-- The text on the standard output. -/
  out : String := ""
  /-- The text on the standard error. -/
  err : String := ""
  deriving DecidableEq, Repr

/-- A program that may fail. -/
abbrev Attempt := ExceptT Failure Program

/-- The lines that report a failure. -/
def failureText (f : Failure) : String :=
  let indented (s : String) := "    " ++ s ++ "\n"
  match f with
  | .markup (.malformed e) =>
    "✗ Parse error at line " ++ toString e.position.line ++ ", column " ++
      toString e.position.column ++ ":\n" ++ indented e.message
  | .markup (.rejected r) => "✗ Unsafe markup rejected:\n" ++ indented r.message
  | .invalid problems =>
    "✗ Validation failed:\n" ++ String.join (problems.map fun p => indented p.message)
  | f => "✗ " ++ f.message ++ "\n"

/-- The report after a failure. -/
def Report.fail (r : Report) (f : Failure) : Report :=
  { r with exit := 2, err := r.err ++ failureText f }

/-- The report of a program that may fail. -/
def reported (p : Attempt Report) : Program Report := do
  match ← p.run with
  | .ok r => return r
  | .error f => return Report.fail {} f

/-! ### Settings -/

/-- The name of the file with the settings, unless another one is named. -/
def defaultConfig : String := "svgforge.yaml"

/-- The text of a file that is needed. -/
def needed (path : String) : Attempt String := do
  match ← Program.readFile path with
  | .ok text => return text
  | .error e => throw (.config (.unreadable path e.message))

/-- The settings in a file. The path of a catalog starts at the directory of the file. -/
def loadConfig (path : String) : Attempt Config := do
  let config ← Config.ofText (← needed path)
  return { config with catalog := config.catalog.map (join (parent path)) }

/-- The palette with the catalog in a file. -/
def loadCatalog (path : String) : Attempt Palette := do
  match ← Program.readFile path with
  | .ok text => Palette.ofYaml text
  | .error e => throw (.config (.unreadableCatalog path e.message))

/-- The session that settings ask for. -/
def openSession (config : Config) : Attempt Session := do
  match config.validate with
  | .error f => throw (.config f)
  | .ok _ =>
    match config.catalog with
    | none => return { config }
    | some path => return { config, palette := ← loadCatalog path }

/-- The session with the settings in a file: the one that is named, or the usual one if it is
there. -/
def loadSession (config : Option String) : Attempt Session := do
  match config with
  | some path => openSession (← loadConfig path)
  | none =>
    if ← Program.hasFile defaultConfig then openSession (← loadConfig defaultConfig)
    else openSession {}

/-! ### Components -/

/-- The name of the component of a mockup in a file. -/
def nameFromPath (path : String) : String :=
  Jsx.componentName (((fileName? path).map stem).getD "")

/-- The text of a component in a format. -/
def rendered (format : Format) (g : Generated) : String :=
  match format with
  | .code => g.code
  | .json => g.encode.pretty

/-- The extension of a file in a format. -/
def Format.extension : Format → String
  | .code => ".tsx"
  | .json => ".json"

/-- Writes a text to a file in a directory, which is made if it is not there. -/
def writeInto (directory name text : String) (r : Report) : Program Report := do
  let target := join directory name
  match ← Program.createFolder directory with
  | .error e => return r.fail (.storage e.message)
  | .ok _ =>
    match ← Program.writeFile target text with
    | .error e => return r.fail (.storage e.message)
    | .ok _ => return { r with out := r.out ++ "✓ wrote " ++ target ++ "\n" }

/-- Makes a component from the mockup in a file. -/
def generate (s : Session) (path : String) (name out : Option String) (format : Format) :
    Attempt Report := do
  let markup ← needed path
  let g ← s.generate { markup, name := name.getD (nameFromPath path) }
  let report : Report :=
    { err := String.join (g.warnings.map fun w => "warning: " ++ w.text ++ "\n") }
  match out with
  | none => return { report with out := rendered format g }
  | some directory =>
    writeInto directory (g.plan.name ++ format.extension) (rendered format g) report

/-- Lists the features of the mockup in a file. -/
def features (s : Session) (path : String) : Attempt Report := do
  let features ← s.featuresOf (← needed path)
  return { out := (Json.array (features.map Markup.Feature.encode)).pretty ++ "\n" }

/-! ### Patches -/

/-- The path of the file that an operation names, below a directory. -/
def targetPath (root file : String) : String :=
  join root (relative file)

/-- The files that some operations name, as far as they can be read, by their names. -/
def readTargets (root : String) : List Patch.Operation → Dict String → Program (Dict String)
  | [], files => return files
  | op :: ops, files => do
    if files.contains op.file then readTargets root ops files
    else match ← Program.readFile (targetPath root op.file) with
      | .ok text => readTargets root ops (files.insert op.file text)
      | .error _ => readTargets root ops files

/-- Writes the files whose texts changed, and reports each. -/
def writeTargets (root : String) (before : Dict String) :
    List (String × String) → Report → Program (Except Report Report)
  | [], r => return .ok r
  | (file, text) :: files, r => do
    if before.get? file = some text then writeTargets root before files r
    else
      let path := targetPath root file
      match ← Program.writeFile path text with
      | .error e => return .error (r.fail (.storage e.message))
      | .ok _ =>
        writeTargets root before files { r with out := r.out ++ "✓ patched " ++ path ++ "\n" }

/-- The report on the result of a patch request. -/
def patchReport (result : Patch.Result) (r : Report) : Report :=
  { exit := if result.success then 0 else 1
    out := r.out ++ result.encode.pretty ++ "\n"
    err := r.err ++ String.join (result.errors.map fun e => "✗ " ++ e ++ "\n") }

/-- Runs the patch request in a file on the files below a directory. A dry run writes none. -/
def patch (request root : String) (dryRun : Bool) : Attempt Report := do
  let r ← Patch.Request.read (← needed request)
  let before ← readTargets root r.ops .empty
  let (after, result) ← r.patchFiles before
  if dryRun then return patchReport result {}
  match ← writeTargets root before after.entries {} with
  | .error report => return report
  | .ok report => return patchReport result report

/-! ### The whole -/

/-- Runs an invocation. -/
def Invocation.run (i : Invocation) : Program Report :=
  reported do
    let s ← loadSession i.config
    match i.command with
    | .generate path name out format => generate s path name out format
    | .features path => features s path
    | .patch request root dryRun => patch request root dryRun
    | .palette => return { out := s.palette.toYaml }

/-- What is reported of arguments that are no invocation. -/
def usage : Report := { exit := 2, err := "usage\n" }

/-- Runs the command line. -/
def run (args : List String) : Program Report :=
  match Invocation.read? args with
  | none => return usage
  | some i => i.run

end Mockup.CommandLine
