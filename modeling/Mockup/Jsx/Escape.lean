import Mockup.Json.Quoted
import Mockup.Text.Blank

/-!
# Escaped text

How a text is written between the tags of an element and as the value of an attribute.
-/

namespace Mockup.Jsx

/-- The reference to a character that has a meaning of its own between tags, or the character. -/
def escapedChar (c : Char) : List Char :=
  match c with
  | '&' => "&amp;".toList
  | '<' => "&lt;".toList
  | '>' => "&gt;".toList
  | '\x7b' => "&#123;".toList
  | '\x7d' => "&#125;".toList
  | c => [c]

/-- A text as it is written between tags. -/
def escaped (cs : List Char) : List Char :=
  cs.flatMap escapedChar

/-- The references to the characters that have a meaning of their own between tags, in the order in
which the characters are replaced. The ampersand is the first, since every reference holds one. -/
def references : List (Char × String) :=
  [('&', "&amp;"), ('<', "&lt;"), ('>', "&gt;"), ('\x7b', "&#123;"), ('\x7d', "&#125;")]

/-- `escaped` on strings: one character after the other is replaced, each in the whole text. -/
def escapeText (s : String) : String :=
  references.foldl (fun s (c, reference) => s.replace c reference) s

/-- Whether a character keeps an attribute value from being written in plain quotes. -/
def needsBraces (c : Char) : Bool :=
  c == '"' || c == '\\' || c == '\x7b' || c == '\x7d' || c == '&' || Text.isControl c

/-- A text as the value of an attribute: in plain quotes if nothing in it has a meaning there, and
otherwise as a quoted text in braces. -/
def literal (cs : List Char) : List Char :=
  if cs.any needsBraces then '\x7b' :: (Json.quoted cs ++ ['\x7d'])
  else '"' :: (cs ++ ['"'])

/-- `literal` on strings. -/
def stringLiteral (s : String) : String :=
  String.ofList (literal s.toList)

end Mockup.Jsx
