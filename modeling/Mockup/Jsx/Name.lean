import Mockup.Text.Blank
import Mockup.Text.Identifier

/-!
# Names in components

Which names an attribute may have, and the name that a component gets from free text.
-/

namespace Mockup.Jsx

/-- Whether a text is one part of an attribute name. -/
def isNamePart : List Char → Bool
  | [] => false
  | c :: cs =>
    (c.isAlpha || c == '_') && cs.all fun d => d.isAlphanum || d == '_' || d == '-'

/-- Whether a text is an attribute name: one part, or two parts with a colon between them. -/
def isAttributeName (name : String) : Bool :=
  let parts := Text.pieces (· == ':') name.toList
  parts.length ≤ 2 && parts.all isNamePart

/-- The name of a component for which none is given. -/
def defaultName : String := "GeneratedComponent"

/-- The name of a component that free text asks for. A text that is such a name stays as it is, but
for the blanks around it; of another text the words are joined. -/
def componentName (requested : String) : String :=
  let requested := Text.trim requested
  if Text.isPascalCase requested then requested
  else match Text.pascalCase requested.toList with
    | [] => defaultName
    | c :: cs =>
      let name := String.ofList (c :: cs)
      if c.isDigit then "Component" ++ name else name

end Mockup.Jsx
