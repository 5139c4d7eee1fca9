import Mockup.Failure
import Mockup.Palette.Builtin
import Mockup.Yaml.Decode
import Mockup.Yaml.Reader
import Mockup.Yaml.Writer

/-!
# Catalogs

A catalog is a YAML text with entries. Laid over the built-in palette it gives the palette of a
session; a palette can be written as a catalog.
-/

namespace Mockup.Palette

/-- A library by its name. -/
def Library.ofYaml? (v : Yaml) : Option Library := do
  let name ← v.asText?
  (Library.names.find? fun n => n.1 == name).map (·.2)

/-- An entry of a catalog. -/
def Entry.ofYaml? (v : Yaml) : Option Entry := do
  let es ← v.entries?
  let key ← Yaml.present? es "key" Yaml.asText?
  let library ← Yaml.present? es "lib" Library.ofYaml?
  let tag ← Yaml.present? es "tag" Yaml.asText?
  let importLine ← Yaml.nullable? es "import" Yaml.asText?
  let tailwind ← Yaml.nullable? es "tailwind" Yaml.asText?
  let defaultProps ← Yaml.nullable? es "defaultProps" Yaml.asDict?
  let matchHints ← Yaml.nullable? es "matchHints" (Yaml.asList? Yaml.asText?)
  return {
    key := ← key
    library := library.getD .html
    tag := ← tag
    importLine
    tailwind
    defaultProps
    matchHints }

/-- The entries of a catalog. -/
def catalogOf? (text : String) : Option (List Entry) := do
  let v ← Yaml.read? text
  let es ← v.entries?
  (Yaml.present? es "entries" (Yaml.asList? Entry.ofYaml?)).join

/-- The built-in palette with the catalog that a text writes laid over it. -/
def ofYaml (text : String) : Except Failure Palette :=
  match catalogOf? text with
  | none => .error .yaml
  | some catalog => Failure.ofProblems (ofCatalog catalog)

/-- A palette as a catalog. -/
def toYaml (p : Palette) : String :=
  Yaml.write (.object [("entries", .array (p.entries.map Entry.encode))])

end Mockup.Palette
