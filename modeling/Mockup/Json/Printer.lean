import Mockup.Json.Basic
import Mockup.Json.Quoted

/-!
# Writing JSON

Two written forms of a value. `compact` has no blanks. `pretty` puts every item and field on a line
of its own, indented by two spaces a level, and an empty array or object on one line.
-/

namespace Mockup.Json

/-- The exponents of the leading digit for which a number is written without an exponent. -/
def isPositional (leading : Int) : Bool :=
  -5 ≤ leading && leading ≤ 15

/-- A finite floating-point value: the shortest digits that read back, of two such texts the one
with an even last digit. An integral value has the fraction `.0`, unless an exponent follows. -/
def floatText (x : Float) : String :=
  match Binary.ofFloat? x with
  | none => "null"
  | some b =>
    let d := Decimal.shortest .even b
    let sign := if b.negative then "-" else ""
    if !isPositional d.leading then sign ++ d.scientific
    else if 0 ≤ d.exponent then sign ++ d.positional ++ ".0"
    else sign ++ d.positional

/-- The text of a number. -/
def Number.text : Number → String
  | .integer n => toString n
  | .float x => floatText x

mutual

/-- The written form without blanks. -/
def compactChars : Json → List Char
  | .null => "null".toList
  | .bool b => (if b then "true" else "false").toList
  | .number n => n.text.toList
  | .string s => quoted s.toList
  | .array items => '[' :: (compactItems items ++ [']'])
  | .object fields => '\x7b' :: (compactFields fields ++ ['\x7d'])

/-- The items of an array, with commas between them. -/
def compactItems : List Json → List Char
  | [] => []
  | [j] => compactChars j
  | j :: js => compactChars j ++ ',' :: compactItems js

/-- The fields of an object, with commas between them. -/
def compactFields : List (String × Json) → List Char
  | [] => []
  | [(k, j)] => quoted k.toList ++ ':' :: compactChars j
  | (k, j) :: fs => quoted k.toList ++ ':' :: (compactChars j ++ ',' :: compactFields fs)

end

/-- The written form without blanks, as a string. -/
def compact (j : Json) : String :=
  String.ofList (compactChars j)

/-- A line break and the blanks that open a line at this level. -/
def newline (level : Nat) : List Char :=
  '\n' :: List.replicate (2 * level) ' '

mutual

/-- The written form on several lines, at this level of nesting. -/
def prettyChars (level : Nat) : Json → List Char
  | .array [] => "[]".toList
  | .array items => '[' :: (prettyItems (level + 1) items ++ newline level ++ [']'])
  | .object [] => ['\x7b', '\x7d']
  | .object fields =>
    '\x7b' :: (prettyFields (level + 1) fields ++ newline level ++ ['\x7d'])
  | j => compactChars j

/-- The items of an array, each on lines of its own. -/
def prettyItems (level : Nat) : List Json → List Char
  | [] => []
  | [j] => newline level ++ prettyChars level j
  | j :: js => newline level ++ prettyChars level j ++ ',' :: prettyItems level js

/-- The fields of an object, each on lines of its own. -/
def prettyFields (level : Nat) : List (String × Json) → List Char
  | [] => []
  | [(k, j)] => newline level ++ quoted k.toList ++ ": ".toList ++ prettyChars level j
  | (k, j) :: fs =>
    newline level ++ quoted k.toList ++ ": ".toList ++ prettyChars level j ++
      ',' :: prettyFields level fs

end

/-- The written form on several lines, as a string. -/
def pretty (j : Json) : String :=
  String.ofList (prettyChars 0 j)

end Mockup.Json
