import Mockup.Jsx.Scan

/-!
# Finding the elements byte by byte

The same elements as those of `scan`, found on the bytes of the text: a place is an offset, a look
ahead reads single bytes, and at a backslash two bytes are skipped whatever they are. Parts of the
text are taken by their offsets. That both ends of a part are boundaries of characters is checked
each time, and a part that is not well placed ends the reading with a fault.

* `readScript`, `readTemplate`, `readElement`, `readTag`, `readAttribute`, `readValue` and
  `readContent` read what their names say, from a place on, and call one another.
* `elements` reads a whole text.

Nothing here says that a reading ends: a loop that goes on forever is a possible outcome.
-/

namespace Mockup.Jsx

/-- The text of a component file, read byte by byte. -/
abbrev Source := List Char

namespace Source

/-! ### Outcomes -/

/-- Why a reading stops early. -/
inductive Halt where
  /-- The text is in error. -/
  | error (e : ScanError)
  /-- A part of the text is asked for that begins or ends outside it or inside a character. -/
  | fault
  deriving DecidableEq, Repr

/-- The outcome of a reading, which is `none` for one that does not end. -/
abbrev Reading (α : Type) := ExceptT Halt Option α

/-- What was read. -/
structure Piece (α : Type) where
  /-- The result. -/
  value : α
  /-- The place after it. -/
  stop : Nat

/-- Stops at a place. -/
def fail {α : Type} (offset : Nat) (cause : ScanError.Cause) : Reading α :=
  throw (.error ⟨offset, cause⟩)

/-- Stops at a part that is not well placed. -/
def fault {α : Type} : Reading α :=
  throw .fault

/-! ### Bytes -/

/-- The bytes of a text, each as the character with its code, so that a byte can be compared with a
character of ASCII. -/
def bytesOf (cs : List Char) : List Char :=
  cs.flatMap fun c => (String.utf8EncodeChar c).map Char.ofUInt8

/-- Whether a place is between two characters, or at an end of the text. -/
def isBoundary (source : Source) (place : Nat) : Bool :=
  Text.byteLength (Text.takeBytes place source) == place

/-- The place of a pattern in a text, counted in bytes. -/
def find? (pattern cs : List Char) : Option Nat :=
  (Text.splitAt? pattern cs).map fun sides => Text.byteLength sides.1

/-- The byte at a place. -/
def byteAt? (source : Source) (place : Nat) : Option Char :=
  (bytesOf source)[place]?

/-- The byte at a place that must be in the text. -/
def byteAt (source : Source) (place : Nat) : Reading Char :=
  match source.byteAt? place with
  | some b => pure b
  | none => fault

/-- The bytes from a place on, which must not be outside the text. -/
def bytesFrom (source : Source) (start : Nat) : Reading (List Char) :=
  if start ≤ (bytesOf source).length then pure ((bytesOf source).drop start) else fault

/-- The text between two places, which must be boundaries. -/
def slice (source : Source) (start stop : Nat) : Reading (List Char) :=
  if start ≤ stop && source.isBoundary start && source.isBoundary stop then
    pure (Text.slice start stop source)
  else fault

/-- The text from a place on, which must be a boundary. -/
def textFrom (source : Source) (start : Nat) : Reading (List Char) :=
  source.slice start (Text.byteLength source)

/-- The place after the bytes that satisfy `p`. -/
def skipWhile (source : Source) (p : Char → Bool) (start : Nat) : Nat :=
  start + (((bytesOf source).drop start).takeWhile p).length

/-! ### Parts of a script without elements -/

/-- Reads a string from a place inside it. -/
def readString (source : Source) (quote : Char) (start place : Nat) : Reading Nat :=
  match source.byteAt? place with
  | none => fail start .openString
  | some b =>
    if b == '\\' then source |>.readString quote start (place + 2)
    else if b == '\n' then fail start .openString
    else if b == quote then pure (place + 1)
    else source |>.readString quote start (place + 1)
partial_fixpoint

/-- Reads a comment up to its end mark. -/
def readBlockComment (source : Source) (start : Nat) : Reading Nat := do
  let rest ← source.textFrom (start + 2)
  match find? ['*', '/'] rest with
  | some length => pure (start + 2 + length + 2)
  | none => fail start .openComment

/-- Reads a regular expression from a place inside it. -/
def readPattern (source : Source) (start place : Nat) (inClass : Bool) : Reading Nat :=
  match source.byteAt? place with
  | none => fail start .openPattern
  | some b =>
    if b == '\\' then source |>.readPattern start (place + 2) inClass
    else if b == '[' then source |>.readPattern start (place + 1) true
    else if b == ']' then source |>.readPattern start (place + 1) false
    else if b == '/' && !inClass then pure (source.skipWhile Char.isAlpha (place + 1))
    else if b == '\n' then fail start .openPattern
    else source |>.readPattern start (place + 1) inClass
partial_fixpoint

/-! ### Parts of a tag without elements -/

/-- Reads a quoted value from its opening quote. -/
def readQuoted (source : Source) (quote : Char) (start : Nat) : Reading (Piece (List Char)) := do
  let rest ← source.bytesFrom (start + 1)
  match rest.findIdx? (· == quote) with
  | none => fail start .openValue
  | some length => do
    let value ← source.slice (start + 1) (start + 1 + length)
    pure ⟨value, start + 1 + length + 1⟩

/-- Reads a closing tag from its bracket, to its name. -/
def readClosingTag (source : Source) (start : Nat) : Reading (Piece String) := do
  let rest ← source.textFrom start
  match find? ['>'] rest with
  | none => fail start .openClosingTag
  | some length => do
    let name ← source.slice (start + 2) (start + length)
    pure ⟨String.ofList (Text.trimmed name), start + length + 1⟩

/-! ### Literal texts -/

/-- A mark that can stand around a literal text. -/
def isQuote (c : Char) : Bool :=
  c == '"' || c == '\'' || c == '\x60'

/-- The literal text that stands between two equal marks, given with and without them. -/
def markedText? (mark : Char) (text inner : List Char) : Option (List Char) :=
  if mark == '"' then
    match Json.unquote? (text.drop 1) with
    | some (s, []) => some s
    | _ => none
  else if inner.any fun c => c == mark || c == '\\' then none
  else if mark == '\x60' && Text.contains ['$', '\x7b'] inner then none
  else some inner

/-- The text that an expression stands for, if it is one literal text and nothing else. -/
def loneText (expression : List Char) : Reading (Option (List Char)) :=
  let text := Text.trimmed expression
  let length := Text.byteLength text
  if length < 2 then pure none
  else do
    let first ← byteAt text 0
    let last ← byteAt text (length - 1)
    if first != last || !isQuote first then pure none
    else do
      let inner ← slice text 1 (length - 1)
      pure (markedText? first text inner)

/-! ### Scripts and elements -/

/-- Whether an element may open at a place. -/
def opensAt (source : Source) (place : Nat) : Bool :=
  (source.byteAt? (place + 1)).any opensElement

mutual

/-- Reads a script from a place on: up to the closing brace around it, or to the end of the text. -/
def readScript (source : Source) (inBraces : Bool) (place : Nat) (s : Script) :
    Reading (Piece (List Element)) :=
  match source.byteAt? place with
  | none =>
    if inBraces then fail place .openBraces
    else if !s.due.isEmpty then fail place .openBracket
    else pure ⟨s.found, place⟩
  | some b =>
    if b == '"' || b == '\'' then do
      let stop ← source.readString b place (place + 1)
      source |>.readScript inBraces stop (s.afterValue [])
    else if b == '\x60' then do
      let inner ← source |>.readTemplate place (place + 1) []
      source |>.readScript inBraces inner.stop (s.afterValue inner.value)
    else if b == '/' && source.byteAt? (place + 1) == some '/' then
      source |>.readScript inBraces (source.skipWhile (· != '\n') place) s
    else if b == '/' && source.byteAt? (place + 1) == some '*' then do
      let stop ← source.readBlockComment place
      source |>.readScript inBraces stop s
    else if b == '/' && s.previous.allowsExpression then do
      let stop ← source.readPattern place (place + 1) false
      source |>.readScript inBraces stop (s.afterValue [])
    else if b == '<' && s.previous.allowsExpression && source.opensAt place then do
      let inner ← source |>.readElement place
      source |>.readScript inBraces inner.stop (s.afterValue [inner.value])
    else match closing? b with
    | some d =>
      source |>.readScript inBraces (place + 1)
        { s with due := d :: s.due, previous := .punctuation }
    | none =>
      if isClosing b then
        match s.due with
        | d :: due =>
          if d == b then
            source |>.readScript inBraces (place + 1)
              { s with due, previous := if b == '\x7d' then .punctuation else .value }
          else fail place .mismatchedBracket
        | [] =>
          if inBraces && b == '\x7d' then pure ⟨s.found, place + 1⟩
          else fail place .unopenedBracket
      else if Text.isAsciiBlank b then source |>.readScript inBraces (place + 1) s
      else if isWordChar b then do
        let stop := source.skipWhile isWordChar place
        let word ← source.slice place stop
        source |>.readScript inBraces stop (s.afterWord word)
      else source |>.readScript inBraces (place + 1) { s with previous := .punctuation }
partial_fixpoint

/-- Reads a template from a place inside it. -/
def readTemplate (source : Source) (start place : Nat) (found : List Element) :
    Reading (Piece (List Element)) :=
  match source.byteAt? place with
  | none => fail start .openTemplate
  | some b =>
    if b == '\\' then source |>.readTemplate start (place + 2) found
    else if b == '\x60' then pure ⟨found, place + 1⟩
    else if b == '$' && source.byteAt? (place + 1) == some '\x7b' then do
      let inner ← source |>.readScript true (place + 2) {}
      source |>.readTemplate start inner.stop (found ++ inner.value)
    else source |>.readTemplate start (place + 1) found
partial_fixpoint

/-- Reads an element from the bracket that opens it. -/
def readElement (source : Source) (start : Nat) : Reading (Piece Element) := do
  let nameEnd := source.skipWhile isTagChar (start + 1)
  let name ← source.slice (start + 1) nameEnd
  let opening ← source |>.readTag { start, name := String.ofList name, nameEnd } nameEnd
  let t := opening.value.1
  if opening.value.2 then pure ⟨t.element opening.stop opening.stop true, opening.stop⟩
  else
    let inner ← source |>.readContent ⟨t, opening.stop⟩ opening.stop
    pure ⟨inner.value.tag.element opening.stop inner.stop false, inner.stop⟩
partial_fixpoint

/-- Reads an opening tag from a place after its name, and whether it also closes the element. -/
def readTag (source : Source) (t : OpenTag) (start : Nat) : Reading (Piece (OpenTag × Bool)) :=
  let place := source.skipWhile Text.isAsciiBlank start
  match source.byteAt? place with
  | none => fail place .openTag
  | some b =>
    if b == '/' && source.byteAt? (place + 1) == some '>' then pure ⟨(t, true), place + 2⟩
    else if b == '>' then pure ⟨(t, false), place + 1⟩
    else if b == '\x7b' then do
      let inner ← source |>.readScript true (place + 1) {}
      source |>.readTag (t.add inner.value) inner.stop
    else if isAttributeChar b then do
      let next ← source |>.readAttribute t place
      source |>.readTag next.value next.stop
    else fail place .strayCharacter
partial_fixpoint

/-- Reads an attribute of an opening tag. -/
def readAttribute (source : Source) (t : OpenTag) (start : Nat) : Reading (Piece OpenTag) := do
  let nameEnd := source.skipWhile isAttributeChar start
  let name ← source.slice start nameEnd
  source |>.readAfterName t ⟨String.ofList name, start⟩ nameEnd
partial_fixpoint

/-- Reads an attribute after its name. -/
def readAfterName (source : Source) (t : OpenTag) (a : OpenAttribute) (nameEnd : Nat) :
    Reading (Piece OpenTag) :=
  let equals := source.skipWhile Text.isAsciiBlank nameEnd
  -- Without a value the attribute ends with its name, before any blanks.
  if source.byteAt? equals != some '=' then pure ⟨t.addAttribute a nameEnd none, nameEnd⟩
  else source |>.readValue t a (source.skipWhile Text.isAsciiBlank (equals + 1))
partial_fixpoint

/-- Reads the value of an attribute. -/
def readValue (source : Source) (t : OpenTag) (a : OpenAttribute) (place : Nat) :
    Reading (Piece OpenTag) :=
  match source.byteAt? place with
  | none => fail place (.oddValue a.name)
  | some b =>
    if b == '"' || b == '\'' then do
      let value ← source.readQuoted b place
      pure ⟨t.addAttribute a value.stop (some (.quoted value.value)), value.stop⟩
    else if b == '\x7b' then do
      let inner ← source |>.readScript true (place + 1) {}
      let value ← source.slice (place + 1) (inner.stop - 1)
      -- The value with its braces and the text that it stands for are told from it when needed.
      let _ ← source.slice place inner.stop
      let _ ← loneText value
      pure ⟨(t.add inner.value).addAttribute a inner.stop (some (.braced value)), inner.stop⟩
    else fail place (.oddValue a.name)
partial_fixpoint

/-- Reads the content of an element from a place inside it, with the closing tag. -/
def readContent (source : Source) (e : OpenElement) (place : Nat) : Reading (Piece OpenElement) :=
  match source.byteAt? place with
  | none => fail place (.openElement e.tag.name)
  | some b =>
    if b == '<' && source.byteAt? (place + 1) == some '/' then do
      let closing ← source.readClosingTag place
      if closing.value = e.tag.name then pure ⟨e, closing.stop⟩
      else fail place (.mismatchedTag closing.value e.tag.name)
    else if b == '<' && source.opensAt place then do
      let inner ← source |>.readElement place
      source |>.readContent (e.add [inner.value]) inner.stop
    else if b == '\x7b' then do
      let inner ← source |>.readScript true (place + 1) {}
      source |>.readContent (e.add inner.value) inner.stop
    else source |>.readContent e (place + 1)
partial_fixpoint

end

/-- The outermost elements of a component file, with those inside them. -/
def elements (source : Source) : Reading (List Element) := do
  let all ← source.readScript false 0 {}
  pure all.value

end Source

end Mockup.Jsx
