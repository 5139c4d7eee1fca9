import Mockup.Config
import Mockup.Problem

/-!
# Failures

Why a request is given up without a result.
-/

namespace Mockup

/-- Why a request is given up. -/
inductive Failure where
  /-- The text is no mockup. -/
  | markup (r : Markup.Refusal)
  /-- Something was checked and has problems. -/
  | invalid (problems : List Problem)
  /-- The settings cannot be used. -/
  | config (f : ConfigFault)
  /-- A file or directory cannot be written. -/
  | storage (reason : String)
  /-- A text is no JSON. -/
  | jsonSyntax
  /-- A value cannot be decoded. -/
  | undecodable (e : DecodeError)
  /-- A text is no YAML, or not of the kind that is due. -/
  | yaml
  deriving Repr

/-- The text of a refusal. -/
def Markup.Refusal.message : Markup.Refusal → String
  | .empty => "Empty document: no root element found"
  | .malformed e =>
    "Parse error at line " ++ toString e.position.line ++ ", column " ++
      toString e.position.column ++ ": " ++ e.message
  | .rejected r => "Unsafe markup rejected: " ++ r.message
  | .tooLarge m value max =>
    "Markup limit exceeded for '" ++ m.name ++ "': " ++ toString value ++ " (max " ++
      toString max ++ ")"

/-- The text of a failure. -/
def Failure.message : Failure → String
  | .markup r => r.message
  | .invalid problems => Problem.summary problems
  | .config f => "Configuration error: " ++ f.message
  | .storage reason => "I/O error: " ++ reason
  | .jsonSyntax => "JSON error"
  | .undecodable e => "JSON error: " ++ e.message
  | .yaml => "YAML error"

/-- Turns problems into a failure. -/
def Failure.ofProblems {α : Type} : Except (List Problem) α → Except Failure α :=
  Except.mapError .invalid

end Mockup
