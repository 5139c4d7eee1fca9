import Mockup.Failure
import Mockup.Yaml.Decode
import Mockup.Yaml.Reader

/-!
# Configuration files

The settings that a YAML text writes. A section or setting that is left out has its default.
-/

namespace Mockup

/-- Limits from the section for them. -/
def Markup.Limits.ofYaml? (v : Yaml) : Option Markup.Limits := do
  let es ← v.entries?
  let maxMarkupBytes ← Yaml.present? es "maxMarkupBytes" Yaml.asNat64?
  let maxDepth ← Yaml.present? es "maxDepth" Yaml.asNat64?
  let maxElements ← Yaml.present? es "maxElements" Yaml.asNat64?
  let d : Markup.Limits := {}
  return {
    maxMarkupBytes := maxMarkupBytes.getD d.maxMarkupBytes
    maxDepth := maxDepth.getD d.maxDepth
    maxElements := maxElements.getD d.maxElements }

namespace Config

/-- Settings from a value. -/
def ofYaml? (v : Yaml) : Option Config := do
  let es ← v.entries?
  let timeout ← Yaml.present? es "oracle" fun v => do
    Yaml.present? (← v.entries?) "timeoutMs" Yaml.asNat64?
  let limits ← Yaml.present? es "limits" Markup.Limits.ofYaml?
  let directory ← Yaml.present? es "output" fun v => do
    Yaml.present? (← v.entries?) "dir" Yaml.asText?
  let catalog ← Yaml.present? es "palette" fun v => do
    Yaml.nullable? (← v.entries?) "catalog" Yaml.asText?
  let d : Config := {}
  return {
    oracleTimeout := timeout.join.getD d.oracleTimeout
    limits := limits.getD d.limits
    outputDirectory := directory.join.getD d.outputDirectory
    catalog := catalog.join }

/-- The valid settings that a text writes; a blank text has all defaults. -/
def ofText (text : String) : Except Failure Config :=
  if Text.isAllBlank text then .ok {}
  else match (Yaml.read? text).bind ofYaml? with
    | none => .error .yaml
    | some c => do
      c.validate.mapError .config
      return c

end Config

end Mockup
