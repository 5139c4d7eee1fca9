import Mockup.Text.Repeat
import Mockup.Xml.Character
import Mockup.Xml.Error

/-!
# The small parts of XML

Names, blanks, references, attribute values and runs of text. Each function reads from the front of
a text and returns what it found and the rest. The length of what is unread marks the place of an
error.
-/

namespace Mockup.Xml

/-- The outcome of reading a part of a document. -/
abbrev Reading := Except Fault

/-- An error at the front of a text. -/
def failAt {α : Type} (cs : List Char) (cause : Cause) : Reading α :=
  .error ⟨cause, cs.length⟩

/-- The text without the blanks at its front. -/
def skipSpaces (cs : List Char) : List Char :=
  cs.dropWhile isSpace

/-- Reads one certain character. -/
def expectChar (due : Char) : List Char → Reading (List Char)
  | [] => failAt [] .endOfText
  | c :: cs => if c = due then .ok cs else failAt (c :: cs) (.expected due (firstByte c))

/-- Reads a certain text. -/
def expectText (due : String) (cs : List Char) : Reading (List Char) :=
  if due.toList.isPrefixOf cs then .ok (cs.drop due.length) else failAt cs (.expectedText due)

/-- Whether a text begins with another one. -/
def startsWith (front : String) (cs : List Char) : Bool :=
  front.toList.isPrefixOf cs

/-- Reads the characters before the first one that does not satisfy `p`. -/
def spanChars (p : Char → Bool) (cs : List Char) : Reading (List Char × List Char) :=
  let inside (c : Char) : Bool := isAllowed c && p c
  let rest := cs.dropWhile inside
  match rest with
  | c :: _ => if isAllowed c then .ok (cs.takeWhile inside, rest) else failAt rest (.notAllowed c)
  | [] => .ok (cs.takeWhile inside, [])

/-- Reads up to the first occurrence of a mark, or to the end. -/
def spanBefore (mark : List Char) : List Char → Reading (List Char × List Char)
  | [] => .ok ([], [])
  | c :: cs =>
    if !isAllowed c then failAt (c :: cs) (.notAllowed c)
    else if mark.isPrefixOf (c :: cs) then .ok ([], c :: cs)
    else (spanBefore mark cs).map fun (front, rest) => (c :: front, rest)

/-- Reads a name; at the end of the text there is none. -/
def simpleName (cs : List Char) : Reading (String × List Char) :=
  match cs with
  | [] => failAt cs .invalidName
  | c :: _ =>
    if isNameStart c then .ok (String.ofList (cs.takeWhile isNameChar), cs.dropWhile isNameChar)
    else failAt cs .invalidName

/-- A name with the prefix that stands for its namespace, empty if there is none. -/
structure QualifiedName where
  /-- The part before the colon. -/
  qualifier : String
  /-- The part after the colon. -/
  name : String
  deriving Repr, DecidableEq

/-- The written form of a qualified name. -/
def QualifiedName.text (q : QualifiedName) : String :=
  if q.qualifier.isEmpty then q.name else q.qualifier ++ ":" ++ q.name

/-- The two parts of a name at its colon, if it has at most one. -/
def splitName? (cs : List Char) : Option (List Char × List Char) :=
  match cs.dropWhile (· != ':') with
  | [] => some ([], cs)
  | _ :: name => if name.contains ':' then none else some (cs.takeWhile (· != ':'), name)

/-- Reads a qualified name. -/
def qualifiedName (cs : List Char) : Reading (QualifiedName × List Char) :=
  match splitName? (cs.takeWhile isNameChar) with
  | some (qualifier, name) =>
    if qualifier.head?.all isNameStart && name.head?.any isNameStart then
      .ok (⟨String.ofList qualifier, String.ofList name⟩, cs.dropWhile isNameChar)
    else failAt cs .invalidName
  | none => failAt cs .invalidName

/-! ### References -/

/-- The characters that have a name of their own. -/
def namedCharacters : List (String × Char) :=
  [("quot", '"'), ("amp", '&'), ("apos", '\''), ("lt", '<'), ("gt", '>')]

/-- The largest number that a character reference may hold. -/
def maxReference : Nat := UInt32.size - 1

/-- The character that stands for numbers beyond the range of characters. -/
def replacement : Char := Char.ofNat 0xfffd

/-- The value of a digit of base sixteen or less. -/
def digitValue (c : Char) : Nat :=
  if c.isDigit then c.toNat - '0'.toNat
  else if c.isLower then c.toNat - 'a'.toNat + 10
  else c.toNat - 'A'.toNat + 10

/-- The character with a number, if a reference may name it. -/
def numberedCharacter? (base : Nat) (digits : List Char) : Option Char :=
  let n := digits.foldl (fun n c => base * n + digitValue c) 0
  if digits.isEmpty || n > maxReference then none
  else
    let c := if n.isValidChar then Char.ofNat n else replacement
    if isAllowed c then some c else none

/-- A digit of base sixteen. -/
def isHexDigit (c : Char) : Bool :=
  c.isDigit || ('a' ≤ c && c ≤ 'f') || ('A' ≤ c && c ≤ 'F')

/-- Reads a reference to a character, from its ampersand on. `after` is the length of the text that
follows the part of the document in which the reference stands. -/
def reference (after : Nat) (cs : List Char) : Reading (Char × List Char) :=
  let malformed : Reading (Char × List Char) :=
    .error ⟨.malformedReference, cs.length + after⟩
  let numbered (base : Nat) (isDigit : Char → Bool) (ds : List Char) :=
    match numberedCharacter? base (ds.takeWhile isDigit), ds.dropWhile isDigit with
    | some c, ';' :: rest => .ok (c, rest)
    | _, _ => malformed
  match cs.drop 1 with
  | '#' :: 'x' :: ds => numbered 16 isHexDigit ds
  | '#' :: ds => numbered 10 Char.isDigit ds
  | ds =>
    match simpleName ds with
    | .ok (name, ';' :: rest) =>
      match namedCharacters.find? fun e => e.1 == name with
      | some (_, c) => .ok (c, rest)
      | none => .error ⟨.unknownEntity name, cs.length + after⟩
    | _ => malformed

/-! ### Normalized texts -/

/-- Adds a character to an attribute value, whose last character comes first. Line ends and tabs
become spaces, a carriage return before a line feed nothing. -/
def addToValue (value : List Char) (c : Char) (next : Option Char) : List Char :=
  if c = '\r' ∧ next = some '\n' then value
  else if c = '\r' ∨ c = '\n' ∨ c = '\t' then ' ' :: value
  else c :: value

/-- The value of an attribute with its references replaced and its blanks made spaces. -/
def attributeValue (after : Nat) (cs : List Char) : Reading String := do
  let step (value : List Char) : List Char → Reading (Text.Progress (List Char))
    | [] => .ok ⟨value, [], false⟩
    | '&' :: cs => (reference after ('&' :: cs)).map fun (c, rest) => ⟨c :: value, rest, true⟩
    | c :: cs => .ok ⟨addToValue value c cs.head?, cs, true⟩
  let (value, _) ← Text.repeatRead step [] cs
  return String.ofList value.reverse

/-- Adds a character to a run of text, whose last character comes first. A carriage return becomes a
line feed once the character after it shows that it ends a line alone, and is dropped before a line
feed. -/
def addToText (text : List Char) (c : Char) (isLast : Bool) : List Char :=
  match text with
  | '\r' :: text =>
    if isLast && c = '\r' then '\n' :: '\n' :: text
    else if c = '\n' then '\n' :: text
    else c :: '\n' :: text
  | text => if isLast && c = '\r' then '\n' :: text else c :: text

/-- A run of text that is being normalized. -/
structure TextRun where
  /-- The characters so far, the last one first. -/
  chars : List Char
  /-- Whether the character before was written as a reference. The one after it is then taken as it
  is. -/
  afterReference : Bool

/-- A run of text with its references replaced and its line ends made line feeds. -/
def characterData (after : Nat) (cs : List Char) : Reading String := do
  let step (run : TextRun) : List Char → Reading (Text.Progress TextRun)
    | [] => .ok ⟨run, [], false⟩
    | '&' :: cs =>
      (reference after ('&' :: cs)).map fun (c, rest) => ⟨⟨c :: run.chars, true⟩, rest, true⟩
    | c :: cs =>
      let chars := if run.afterReference then c :: run.chars
        else addToText run.chars c cs.isEmpty
      .ok ⟨⟨chars, false⟩, cs, true⟩
  let (run, _) ← Text.repeatRead step ⟨[], false⟩ cs
  return String.ofList run.chars.reverse

/-- The text of a CDATA section: line ends become line feeds. -/
def sectionData (cs : List Char) : String :=
  let rec go (text : List Char) : List Char → List Char
    | [] => text
    | c :: cs => go (addToText text c cs.isEmpty) cs
  String.ofList (go [] cs).reverse

end Mockup.Xml
