import Mockup.Json.Decode

/-!
# Warnings

What is reported beside a result that could be reached all the same.
-/

namespace Mockup

/-- A remark on a result. -/
inductive Warning where
  /-- A plan uses a key that the palette does not have. -/
  | unknownKey (key : String)
  /-- No usable proposal came for a stage, and the stage went on without one. -/
  | noProposal (stage reason : String)
  /-- A prop of a component has no place among its attributes. -/
  | droppedProp (key prop : String)
  /-- The name that was asked for is no name of a component. -/
  | renamed (requested used : String)
  deriving DecidableEq, Repr

namespace Warning

/-- The text of a warning. -/
def text : Warning → String
  | .unknownKey key => "unknown component key '" ++ key ++ "', placeholder emitted"
  | .noProposal stage reason => "oracle unavailable during " ++ stage ++ ": " ++ reason
  | .droppedProp key prop => "dropped invalid prop '" ++ prop ++ "' on '" ++ key ++ "'"
  | .renamed requested used =>
    "component name '" ++ requested ++ "' normalized to '" ++ used ++ "'"

/-! ### Interchange -/

/-- A warning as an object. -/
def encode : Warning → Json
  | .unknownKey key => .object [("kind", .string "unresolvedComponentKey"), ("key", .string key)]
  | .noProposal stage reason =>
    .object [("kind", .string "oracleUnavailable"), ("stage", .string stage),
      ("reason", .string reason)]
  | .droppedProp key prop =>
    .object [("kind", .string "droppedProp"), ("key", .string key), ("prop", .string prop)]
  | .renamed requested used =>
    .object [("kind", .string "renamedComponent"), ("requested", .string requested),
      ("used", .string used)]

/-- The kinds of warnings by their tags, each with its fields. -/
def variants {whole : Json} : List (String × Json.Variant whole Warning) :=
  let text (key : String) : Json.Members whole String := .required key Json.asString
  [("unresolvedComponentKey", ⟨"UnresolvedComponentKey", Warning.unknownKey <$> text "key"⟩),
    ("oracleUnavailable", ⟨"OracleUnavailable",
      Warning.noProposal <$> text "stage" <*> text "reason"⟩),
    ("droppedProp", ⟨"DroppedProp", Warning.droppedProp <$> text "key" <*> text "prop"⟩),
    ("renamedComponent", ⟨"RenamedComponent",
      Warning.renamed <$> text "requested" <*> text "used"⟩)]

/-- A warning from an object or a sequence. -/
def decode (j : Json) : Decoded Warning :=
  Json.asTagged .direct "Warning" "kind" j variants

end Warning

end Mockup
