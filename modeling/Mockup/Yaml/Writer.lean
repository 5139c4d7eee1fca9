import Mockup.Json.Printer
import Mockup.Yaml.Reader

/-!
# Writing YAML

A value of the interchange format as a block document: entries of an object on lines of their own,
items of a list after dashes that are not indented below their key. A string is plain if it would be
read back as itself, and otherwise in quotes or, with line breaks in it, a block of lines.
-/

namespace Mockup.Yaml

/-! ### Scalars -/

/-- Whether a colon that ends a key, or a comment, would be seen in a text. -/
def isCut (cs : List Char) : Bool :=
  !(plainSpan false false cs).2.isEmpty

/-- Whether a text starts with a mark of a document. -/
def isDocumentMark (cs : List Char) : Bool :=
  "---".toList.isPrefixOf cs || "...".toList.isPrefixOf cs

/-- Whether a text has a blank at one of its ends. -/
def hasEdgeGap (cs : List Char) : Bool :=
  cs.head? == some ' ' || cs.getLast? == some ' '

/-- Whether a character can be written as it is. -/
def isWritable (c : Char) : Bool :=
  c == '\n' || (isAllowed c && c != '\t' && c != '\r' && c.toNat != 0xfeff)

/-- Whether a string can be written as a plain scalar. -/
def isPlain (s : String) : Bool :=
  let cs := s.toList
  startsPlain false cs && !isCut cs && !hasEdgeGap cs && !isDocumentMark cs && !isSpecial s &&
    !isSpecial (s.map Char.toLower) && !isPadded (unsigned cs)

/-- A character in double quotes. -/
def escapedChar (c : Char) : List Char :=
  if c == '"' || c == '\\' then ['\\', c]
  else if c == '\n' then "\\n".toList
  else if c == '\t' then "\\t".toList
  else if c == '\r' then "\\r".toList
  else if isWritable c then [c]
  else
    let digits := (Nat.toDigits 16 c.toNat).map Char.toUpper
    let width := if c.toNat < 0x100 then 2 else if c.toNat < 0x10000 then 4 else 8
    let mark := if width = 2 then 'x' else if width = 4 then 'u' else 'U'
    '\\' :: mark :: (List.replicate (width - digits.length) '0' ++ digits)

/-- A string in double quotes. -/
def inDoubleQuotes (cs : List Char) : List Char :=
  '"' :: (cs.flatMap escapedChar ++ ['"'])

/-- A string in single quotes. -/
def inSingleQuotes (cs : List Char) : List Char :=
  '\'' :: (cs.flatMap (fun c => if c == '\'' then ['\'', '\''] else [c]) ++ ['\''])

/-- A string as a block of lines with an indentation. -/
def asLines (indent : Nat) (cs : List Char) : List Char :=
  let body := Text.dropTrailing (· == '\n') cs
  let ends := cs.length - body.length
  let hint := if cs.head?.any fun c => c == ' ' || c == '\n' then ['2'] else []
  let chomp := if ends = 0 then ['-'] else if ends = 1 then [] else ['+']
  let lines := Text.pieces (· == '\n') body ++ List.replicate (ends - 1) []
  '|' :: hint ++ chomp ++ lines.flatMap fun l =>
    '\n' :: if l.isEmpty then [] else List.replicate indent ' ' ++ l

/-- A string at an indentation. -/
def stringText (indent : Nat) (s : String) : List Char :=
  let cs := s.toList
  if !cs.all isWritable then inDoubleQuotes cs
  else if cs.contains '\n' then asLines indent cs
  else if isPlain s then cs
  else inSingleQuotes cs

/-- A number. -/
def numberText (n : Json.Number) : String :=
  n.text.replace "e+" "e"

/-- A value that stands on one line, unless it is a string with line breaks. -/
def inlineText (indent : Nat) : Json → List Char
  | .null => "null".toList
  | .bool b => (if b then "true" else "false").toList
  | .number n => (numberText n).toList
  | .string s => stringText indent s
  | .array _ => "[]".toList
  | .object _ => ['\x7b', '\x7d']

/-! ### Blocks -/

/-- The spaces in front of a line. -/
def spaces (indent : Nat) : List Char :=
  List.replicate indent ' '

mutual

/-- A value after a dash, whose lines below the first are indented. -/
def itemText (indent : Nat) : Json → List Char
  | .array (v :: vs) =>
    '-' :: ' ' :: itemText (indent + 2) v ++ itemLines (indent + 2) vs
  | .object ((k, v) :: fs) =>
    stringText indent k ++ ':' :: fieldText indent v ++ fieldLines indent fs
  | v => inlineText indent v

/-- A value after the colon of a key that is indented. -/
def fieldText (indent : Nat) : Json → List Char
  | .array (v :: vs) => itemLines indent (v :: vs)
  | .object (f :: fs) => fieldLines (indent + 2) (f :: fs)
  | v => ' ' :: inlineText (indent + 2) v

/-- The items of a list, each on a new line. -/
def itemLines (indent : Nat) : List Json → List Char
  | [] => []
  | v :: vs =>
    '\n' :: spaces indent ++ '-' :: ' ' :: itemText (indent + 2) v ++ itemLines indent vs

/-- The fields of an object, each on a new line. -/
def fieldLines (indent : Nat) : List (String × Json) → List Char
  | [] => []
  | (k, v) :: fs =>
    '\n' :: spaces indent ++ stringText indent k ++ ':' :: fieldText indent v ++
      fieldLines indent fs

end

/-- A value as a document. -/
def write (j : Json) : String :=
  String.ofList (itemText 0 j) ++ "\n"

end Mockup.Yaml
