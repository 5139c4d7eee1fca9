/-!
# Errors in XML documents

What makes a text no XML document, and where. An error is found while some part of the text is still
unread; the length of that part gives its line and column. Messages about the document as a whole
name no place and are put at its beginning.
-/

namespace Mockup.Xml

/-- A line and a column, counted from one. Columns are counted in characters. -/
structure Position where
  /-- The line. -/
  line : Nat
  /-- The column. -/
  column : Nat
  deriving Repr, DecidableEq

/-- The position after a text. -/
def Position.after (cs : List Char) : Position :=
  ⟨(cs.filter (· == '\n')).length + 1, (cs.reverse.takeWhile (· != '\n')).length + 1⟩

/-- The place where a document begins. -/
def Position.first : Position := ⟨1, 1⟩

instance : ToString Position := ⟨fun p => toString p.line ++ ":" ++ toString p.column⟩

/-- What is wrong with a document. -/
inductive Cause where
  /-- The text ends inside a tag. -/
  | endOfText
  /-- There is no element. -/
  | noRoot
  /-- The outermost element has no closing tag. -/
  | rootNotClosed
  /-- There is a document type declaration. -/
  | doctype
  /-- Something stands where no markup may stand. -/
  | unknownToken
  /-- A name is malformed. -/
  | invalidName
  /-- One certain character is due. -/
  | expected (due found : Char)
  /-- A quote is due. -/
  | expectedQuote (found : Char)
  /-- A blank is due. -/
  | expectedSpace (found : Char)
  /-- A certain text is due. -/
  | expectedText (due : String)
  /-- A closing tag does not belong to the open element. -/
  | wrongClosingTag (due found : String)
  /-- A reference names no known entity. -/
  | unknownEntity (name : String)
  /-- A reference is malformed. -/
  | malformedReference
  /-- An element has two attributes of one name. -/
  | duplicateAttribute (name : String)
  /-- An element declares a namespace prefix twice. -/
  | duplicateNamespace (name : String)
  /-- A namespace prefix is not declared. -/
  | unknownNamespace (name : String)
  /-- An element has the prefix that is reserved for declarations. -/
  | reservedPrefix
  /-- The namespace of declarations is declared. -/
  | reservedNamespace
  /-- The namespace of `xml` is declared for another prefix. -/
  | xmlNamespaceElsewhere
  /-- The prefix `xml` is declared with another namespace. -/
  | xmlPrefixElsewhere
  /-- An XML declaration stands inside the document. -/
  | lateDeclaration
  /-- A character may not stand in a document. -/
  | notAllowed (c : Char)
  /-- A comment holds two hyphens in a row, or ends in one. -/
  | hyphensInComment
  /-- A text holds the end mark of a CDATA section. -/
  | sectionEndInText
  deriving Repr, DecidableEq

/-- A cause, and how much of the text was unread when it was found. -/
structure Fault where
  /-- What is wrong. -/
  cause : Cause
  /-- The number of characters from the place of the error to the end. -/
  unread : Nat
  deriving Repr, DecidableEq

/-- A character that may not stand in a document, as a message shows it. -/
def shownControl (c : Char) : String :=
  if c.toNat = 0 then "'\\0'"
  else "'\\u\x7b" ++ String.ofList (Nat.toDigits 16 c.toNat) ++ "\x7d'"

/-- Whether the message of a cause names a place. -/
def Cause.hasPlace : Cause → Bool
  | .endOfText | .noRoot | .rootNotClosed | .doctype => false
  | _ => true

/-- The text of a cause at a place. -/
def Cause.message (p : Position) : Cause → String
  | .endOfText => "unexpected end of stream"
  | .noRoot => "the document does not have a root node"
  | .rootNotClosed => "the root node was opened but never closed"
  | .doctype => "XML with DTD detected"
  | .unknownToken => "unknown token at " ++ toString p
  | .invalidName => "invalid name token at " ++ toString p
  | .expected due found =>
    "expected '" ++ due.toString ++ "' not '" ++ found.toString ++ "' at " ++ toString p
  | .expectedQuote found => "expected a quote not '" ++ found.toString ++ "' at " ++ toString p
  | .expectedSpace found =>
    "expected a whitespace not '" ++ found.toString ++ "' at " ++ toString p
  | .expectedText due => "expected '" ++ due ++ "' at " ++ toString p
  | .wrongClosingTag due found =>
    "expected '" ++ due ++ "' tag, not '" ++ found ++ "' at " ++ toString p
  | .unknownEntity name => "unknown entity reference '" ++ name ++ "' at " ++ toString p
  | .malformedReference => "malformed entity reference at " ++ toString p
  | .duplicateAttribute name =>
    "attribute '" ++ name ++ "' at " ++ toString p ++ " is already defined"
  | .duplicateNamespace name =>
    "namespace '" ++ name ++ "' at " ++ toString p ++ " is already defined"
  | .unknownNamespace name => "an unknown namespace prefix '" ++ name ++ "' at " ++ toString p
  | .reservedPrefix => "the 'xmlns' prefix is used at " ++ toString p ++ ", but it must not be"
  | .reservedNamespace =>
    "the 'xmlns' URI is used at " ++ toString p ++ ", but it must not be declared"
  | .xmlNamespaceElsewhere =>
    "the 'xml' namespace URI is used for not 'xml' prefix at " ++ toString p
  | .xmlPrefixElsewhere => "'xml' namespace prefix mapped to wrong URI at " ++ toString p
  | .lateDeclaration => "unexpected XML declaration at " ++ toString p
  | .notAllowed c => "a non-XML character " ++ shownControl c ++ " found at " ++ toString p
  | .hyphensInComment => "comment at " ++ toString p ++ " contains '--'"
  | .sectionEndInText =>
    "']]>' at " ++ toString p ++ " is not allowed inside a character data"

/-- A cause at its place in the document. -/
structure Error where
  /-- What is wrong. -/
  cause : Cause
  /-- Where. -/
  position : Position
  deriving Repr, DecidableEq

/-- The error that a fault is in a text. -/
def Fault.inText (f : Fault) (text : List Char) : Error :=
  ⟨f.cause,
    if f.cause.hasPlace then Position.after (text.take (text.length - f.unread))
    else Position.first⟩

/-- The text of an error, without the place put in front. -/
def Error.message (e : Error) : String :=
  e.cause.message e.position

end Mockup.Xml
