import Mockup.Json.Decode
import Mockup.Markup.Sanitized

/-!
# Configuration

The settings of a session. Every setting has a default. `Config.validate` refuses settings under
which nothing could be done.
-/

namespace Mockup

/-- The settings of a session. -/
structure Config where
  /-- How long an oracle may take, in milliseconds. -/
  oracleTimeout : Nat := 8000
  /-- How large a mockup may be. -/
  limits : Markup.Limits := {}
  /-- The directory of component files. -/
  outputDirectory : String := "src/components/generated"
  /-- The file with a catalog to lay over the built-in palette. -/
  catalog : Option String := none
  deriving DecidableEq, Repr, Inhabited

/-- Why settings cannot be used. -/
inductive ConfigFault where
  /-- An oracle has no time. -/
  | noTime
  /-- No mockup is small enough. -/
  | noRoom
  /-- The output directory is blank. -/
  | blankDirectory
  /-- A file that is needed cannot be read. -/
  | unreadable (path reason : String)
  /-- The file with the catalog cannot be read. -/
  | unreadableCatalog (path reason : String)
  deriving DecidableEq, Repr

/-- The text of a fault. -/
def ConfigFault.message : ConfigFault → String
  | .noTime => "oracle.timeoutMs must be greater than 0"
  | .noRoom => "limits.maxDepth and limits.maxElements must be greater than 0"
  | .blankDirectory => "output.dir must not be empty"
  | .unreadable path reason => "failed to read " ++ path ++ ": " ++ reason
  | .unreadableCatalog path reason => "failed to read palette " ++ path ++ ": " ++ reason

/-- The first fault of the settings, if there is one. -/
def Config.validate (c : Config) : Except ConfigFault Unit :=
  if c.oracleTimeout = 0 then .error .noTime
  else if c.limits.maxDepth = 0 ∨ c.limits.maxElements = 0 then .error .noRoom
  else if Text.isAllBlank c.outputDirectory then .error .blankDirectory
  else .ok ()

/-! ### Interchange -/

/-- Limits as an object. -/
def Markup.Limits.encode (l : Markup.Limits) : Json :=
  .object [("maxMarkupBytes", .nat l.maxMarkupBytes), ("maxDepth", .nat l.maxDepth),
    ("maxElements", .nat l.maxElements)]

/-- Limits from an object or a sequence. -/
def Markup.Limits.decode (j : Json) : Decoded Markup.Limits :=
  let d : Markup.Limits := {}
  Json.asStruct .direct "Limits" j <|
    Markup.Limits.mk <$> .defaulted "maxMarkupBytes" d.maxMarkupBytes Json.asCount <*>
      .defaulted "maxDepth" d.maxDepth Json.asCount <*>
      .defaulted "maxElements" d.maxElements Json.asCount

namespace Config

/-- Settings as an object. -/
def encode (c : Config) : Json :=
  .object [("oracle", .object [("timeoutMs", .nat c.oracleTimeout)]), ("limits", c.limits.encode),
    ("output", .object [("dir", .string c.outputDirectory)]),
    ("palette", .object [("catalog", (c.catalog.map Json.string).getD .null)])]

/-- The time for an oracle from an object or a sequence. -/
def decodeTimeout (j : Json) : Decoded Nat :=
  Json.asStruct .direct "OracleConfig" j <|
    .defaulted "timeoutMs" ({} : Config).oracleTimeout Json.asNat64

/-- The output directory from an object or a sequence. -/
def decodeDirectory (j : Json) : Decoded String :=
  Json.asStruct .direct "OutputConfig" j <|
    .defaulted "dir" ({} : Config).outputDirectory Json.asString

/-- The file with the catalog from an object or a sequence. -/
def decodeCatalog (j : Json) : Decoded (Option String) :=
  Json.asStruct .direct "PaletteConfig" j <| .nullable "catalog" Json.asPath

/-- Settings from an object or a sequence. -/
def decode (j : Json) : Decoded Config :=
  let d : Config := {}
  Json.asStruct .direct "ForgeConfig" j <|
    Config.mk <$> .defaulted "oracle" d.oracleTimeout decodeTimeout <*>
      .defaulted "limits" d.limits Markup.Limits.decode <*>
      .defaulted "output" d.outputDirectory decodeDirectory <*>
      .defaulted "palette" d.catalog decodeCatalog

end Config

end Mockup
