import Mockup.Text.Blank

/-!
# The allow-list

Which elements and attributes a mockup may hold. A name on the list is kept and an unknown one is
stripped, but executable content is an error: elements that run or restyle, handlers of events, and
addresses with a scheme that runs a script.
-/

namespace Mockup.Markup

/-- What becomes of an element or attribute that is no error. -/
inductive Verdict where
  /-- It stays. -/
  | keep
  /-- It is left out; an element with all that it holds. -/
  | strip
  deriving DecidableEq, Repr

/-- Why content is refused. -/
inductive Rejection where
  /-- The element is forbidden. -/
  | element (name : String)
  /-- The attribute handles an event. -/
  | eventHandler (name owner : String)
  /-- The value of the attribute holds an address that runs a script. -/
  | scriptAddress (name owner : String)
  /-- The address has a scheme that is not allowed. -/
  | addressScheme (value owner : String)
  /-- The outermost element is none of the kept ones. -/
  | root (name : String)
  deriving DecidableEq, Repr

/-- The text of a rejection. -/
def Rejection.message : Rejection → String
  | .element name => "element <" ++ name ++ "> is not allowed"
  | .eventHandler name owner =>
    "event handler attribute '" ++ name ++ "' on <" ++ owner ++ ">"
  | .scriptAddress name owner =>
    "script URL in attribute '" ++ name ++ "' on <" ++ owner ++ ">"
  | .addressScheme value owner =>
    "URL scheme not allowed in href '" ++ value ++ "' on <" ++ owner ++ ">"
  | .root name => "root element <" ++ name ++ "> is not an allowed SVG element"

/-- The elements that are kept. -/
def keptElements : List String :=
  ["svg", "g", "path", "rect", "circle", "ellipse", "line", "polyline", "polygon", "text",
    "tspan", "image", "title", "desc"]

/-- The attributes that are kept: geometry, paint and text, nothing that runs or styles. -/
def keptAttributes : List String :=
  ["viewBox", "width", "height", "x", "y", "cx", "cy", "r", "rx", "ry", "x1", "y1", "x2", "y2",
    "d", "points", "fill", "stroke", "stroke-width", "opacity", "transform", "font-family",
    "font-size", "font-weight", "text-anchor", "dominant-baseline", "id", "class", "href"]

/-- The elements whose presence refuses the document, in lower case. -/
def forbiddenElements : List String :=
  ["script", "foreignobject", "iframe", "object", "embed", "style", "handler", "listener", "set",
    "animate", "animatemotion", "animatetransform", "animatecolor"]

/-- A name with its ASCII letters in lower case. -/
def lowerName (s : String) : String :=
  String.ofList (s.toList.map Char.toLower)

/-- The verdict on an element. Forbidden names count in any case, kept ones only as listed. -/
def checkElement (name : String) : Except Rejection Verdict :=
  if forbiddenElements.contains (lowerName name) then .error (.element name)
  else if keptElements.contains name then .ok .keep
  else .ok .strip

/-! ### Addresses -/

/-- The lower case of a character, as far as it can become an ASCII letter: of the letters beyond
ASCII only the dotted capital I and the Kelvin sign do. All others stand for themselves. -/
def lowerCase (c : Char) : List Char :=
  if c.toNat = 0x130 then ['i', Char.ofNat 0x307]
  else if c.toNat = 0x212a then ['k']
  else [c.toLower]

/-- Whether a character has no weight in an address. -/
def isWeightless (c : Char) : Bool :=
  Text.isAsciiBlank c || Text.isControl c

/-- An address in the form in which its scheme is looked for: in lower case, without ASCII blanks
and control characters. -/
def normalizedAddress (cs : List Char) : List Char :=
  (cs.filter fun c => !isWeightless c).flatMap lowerCase

/-- The schemes that run a script, with their colon. -/
def scriptSchemes : List String :=
  ["javascript:", "vbscript:", "livescript:"]

/-- Whether a normalized value holds a scheme that runs a script, anywhere in it. -/
def holdsScript (cs : List Char) : Bool :=
  scriptSchemes.any fun s => Text.contains s.toList cs

/-- A lower-case ASCII letter. -/
def isLowerLetter (c : Char) : Bool :=
  'a' ≤ c && c ≤ 'z'

/-- A character that may stand in a scheme after its first one. -/
def isSchemeChar (c : Char) : Bool :=
  isLowerLetter c || c.isDigit || c == '+' || c == '.' || c == '-'

/-- The scheme of a normalized address: a letter and scheme characters before a colon. -/
def scheme? (cs : List Char) : Option (List Char) :=
  let front := cs.takeWhile isSchemeChar
  if front.head?.any isLowerLetter && (cs.dropWhile isSchemeChar).head? == some ':' then some front
  else none

/-- The beginning of an address that holds an image. -/
def imageData : List Char := "data:image/".toList

/-- The beginning of an address that holds a drawing, which may run scripts of its own. -/
def drawingData : List Char := "data:image/svg".toList

/-- Whether a normalized address may be followed: it is relative, or on the web, or holds an image
other than a drawing. -/
def isSafeAddress (cs : List Char) : Bool :=
  match scheme? cs with
  | none => true
  | some scheme =>
    if scheme = "http".toList ∨ scheme = "https".toList then true
    else if scheme = "data".toList then imageData.isPrefixOf cs && !drawingData.isPrefixOf cs
    else false

/-- Whether an attribute handles an event: its name is `on`, in any case, and something more. -/
def isEventHandler (name : String) : Bool :=
  match name.toList with
  | a :: b :: _ :: _ => a.toLower == 'o' && b.toLower == 'n'
  | _ => false

/-- The verdict on an attribute of an element. -/
def checkAttribute (element name value : String) : Except Rejection Verdict :=
  let address := normalizedAddress value.toList
  if isEventHandler name then .error (.eventHandler name element)
  else if holdsScript address then .error (.scriptAddress name element)
  else if !keptAttributes.contains name then .ok .strip
  else if name = "href" ∧ !isSafeAddress address then .error (.addressScheme value element)
  else .ok .keep

end Mockup.Markup
