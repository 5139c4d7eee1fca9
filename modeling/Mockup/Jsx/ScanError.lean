/-!
# Errors of a scan

Why the elements of a component file cannot be found.
-/

namespace Mockup.Jsx

/-- What is wrong with a text. -/
inductive ScanError.Cause where
  /-- A string has no closing quote on its line. -/
  | openString
  /-- A template has no closing mark. -/
  | openTemplate
  /-- A comment has no end. -/
  | openComment
  /-- A regular expression has no end on its line. -/
  | openPattern
  /-- A closing bracket is of another kind than the one that is open. -/
  | mismatchedBracket
  /-- A closing bracket has no opening one. -/
  | unopenedBracket
  /-- A bracket is open at the end of the text. -/
  | openBracket
  /-- Braces around an expression are open at the end of the text. -/
  | openBraces
  /-- An opening tag has no end. -/
  | openTag
  /-- A character has no place in an opening tag. -/
  | strayCharacter
  /-- The quoted value of an attribute has no end. -/
  | openValue
  /-- An attribute has a value that is neither quoted nor in braces. -/
  | oddValue (name : String)
  /-- An element has no closing tag. -/
  | openElement (tag : String)
  /-- A closing tag has no end. -/
  | openClosingTag
  /-- A closing tag has another name than the element that is open. -/
  | mismatchedTag (found expected : String)
  deriving DecidableEq, Repr

/-- The text of a cause. -/
def ScanError.Cause.message : ScanError.Cause → String
  | openString => "unterminated string literal"
  | openTemplate => "unterminated template literal"
  | openComment => "unterminated block comment"
  | openPattern => "unterminated regular expression"
  | mismatchedBracket => "mismatched bracket"
  | unopenedBracket => "unbalanced closing bracket"
  | openBracket => "unclosed bracket at end of input"
  | openBraces => "expected '\x7d' before end of input"
  | openTag => "unterminated opening tag"
  | strayCharacter => "unexpected character in tag"
  | openValue => "unterminated attribute string"
  | oddValue name => "unsupported value for attribute '" ++ name ++ "'"
  | openElement tag => "unclosed element <" ++ tag ++ ">"
  | openClosingTag => "unterminated closing tag"
  | mismatchedTag found expected =>
    "closing tag </" ++ found ++ "> does not match <" ++ expected ++ ">"

/-- A cause at a place. -/
structure ScanError where
  /-- The place as a byte offset. -/
  offset : Nat
  /-- The cause. -/
  cause : ScanError.Cause
  deriving DecidableEq, Repr

/-- The text of an error. -/
def ScanError.message (e : ScanError) : String :=
  "JSX scan error at byte " ++ toString e.offset ++ ": " ++ e.cause.message

end Mockup.Jsx
