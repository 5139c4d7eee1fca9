import Mockup.Jsx.Cursor
import Mockup.Jsx.Element
import Mockup.Jsx.ScanError

/-!
# Finding the elements of a component file

The text is read one character at a time. What is being read is a script, a template, an opening
tag or the content of an element; what stands around it waits on a stack. In a script a `<` opens
an element only where an expression may start, so that comparisons and type arguments are passed
over.

* `step` reads one character, and `run` reads a text.
* `finish` gives the elements at the end of the text.
* `scan` does all of it; `run_append` states that a text may be read in parts.
-/

namespace Mockup.Jsx

/-! ### Characters -/

/-- A character of a word in a script. -/
def isWordChar (c : Char) : Bool :=
  c.isAlphanum || c == '_' || c == '$' || 0x80 ≤ c.toNat

/-- A character of the name in a tag. -/
def isTagChar (c : Char) : Bool :=
  c.isAlphanum || c == '_' || c == '$' || c == '.' || c == ':' || c == '-'

/-- A character of the name of an attribute. -/
def isAttributeChar (c : Char) : Bool :=
  c.isAlphanum || c == '_' || c == '$' || c == ':' || c == '-'

/-- A character that makes a `<` before it open an element. -/
def opensElement (c : Char) : Bool :=
  c.isAlpha || c == '>'

/-- The closing bracket for an opening one. -/
def closing? : Char → Option Char
  | '(' => some ')'
  | '[' => some ']'
  | '\x7b' => some '\x7d'
  | _ => none

/-- Whether a character is a closing bracket. -/
def isClosing (c : Char) : Bool :=
  c == ')' || c == ']' || c == '\x7d'

/-- The words after which an expression may start. -/
def leadingWords : List String :=
  ["return", "yield", "await", "default", "case", "else", "do", "typeof", "void", "in", "of",
    "new", "throw", "delete"]

/-! ### What is being read -/

/-- What came last in a script. -/
inductive Previous where
  | nothing
  | punctuation
  | leadingWord
  | value
  deriving DecidableEq, Repr, Inhabited

/-- Whether an expression may start. -/
def Previous.allowsExpression (p : Previous) : Bool :=
  p != .value

/-- A script. -/
structure Script where
  /-- The closing brackets that are due, the next one first. -/
  due : List Char := []
  /-- What came last. -/
  previous : Previous := .nothing
  /-- The elements found in it. -/
  found : List Element := []
  deriving Inhabited

/-- A part of a script that is not read to its end. -/
inductive Script.Part where
  /-- Between two parts. -/
  | between
  /-- A word. -/
  | word (start : Nat)
  /-- A string with its quote, and whether the next character is escaped. -/
  | string (quote : Char) (start : Nat) (escaped : Bool)
  /-- A slash, which can open several things. -/
  | slash (start : Nat)
  /-- A comment up to the end of the line. -/
  | lineComment
  /-- A comment up to its end mark, and whether the mark has begun. -/
  | blockComment (start : Nat) (starred : Bool)
  /-- A regular expression, and whether the next character is in a class or escaped. -/
  | pattern (start : Nat) (inClass escaped : Bool)
  /-- The letters after a regular expression. -/
  | flags
  /-- An angle bracket where an element may open. -/
  | angle (start : Nat)
  deriving DecidableEq, Repr

/-- A template. -/
structure Template where
  /-- Its place. -/
  start : Nat
  /-- The elements found in it. -/
  found : List Element := []

/-- A part of a template that is not read to its end. -/
inductive Template.Part where
  | between
  /-- The next character is escaped. -/
  | escaped
  /-- A dollar sign, which may open a substitution. -/
  | dollar
  deriving DecidableEq, Repr

/-- An opening tag. -/
structure OpenTag where
  /-- Its place. -/
  start : Nat
  /-- Its name. -/
  name : String := ""
  /-- The place after its name. -/
  nameEnd : Nat := start
  /-- The attributes so far. -/
  attributes : List Attribute := []
  /-- The elements found in it. -/
  found : List Element := []

/-- An attribute whose value is due. -/
structure OpenAttribute where
  /-- Its name. -/
  name : String
  /-- Its place. -/
  start : Nat
  deriving DecidableEq, Repr

/-- A part of an opening tag that is not read to its end. -/
inductive OpenTag.Part where
  /-- The name. -/
  | name
  /-- Between two parts. -/
  | between
  /-- A slash, which must be followed by the end of the tag. -/
  | slash (start : Nat)
  /-- The name of an attribute. -/
  | attribute (start : Nat)
  /-- The blanks after the name of an attribute, which ended at a place. -/
  | gap (a : OpenAttribute) (stop : Nat)
  /-- The blanks after the equals sign. -/
  | equals (a : OpenAttribute)
  /-- A quoted value with its quote and its place. -/
  | quoted (a : OpenAttribute) (quote : Char) (start : Nat)
  deriving DecidableEq, Repr

/-- An element whose opening tag is read. -/
structure OpenElement where
  /-- The opening tag, with the elements found in it and after it. -/
  tag : OpenTag
  /-- The place after the opening tag. -/
  openEnd : Nat

/-- A part of the content of an element that is not read to its end. -/
inductive OpenElement.Part where
  | between
  /-- An angle bracket. -/
  | angle (start : Nat)
  /-- A closing tag. -/
  | closing (start : Nat)
  deriving DecidableEq, Repr

/-- What is being read. -/
inductive Focus where
  | script (s : Script) (part : Script.Part)
  | template (t : Template) (part : Template.Part)
  | tag (t : OpenTag) (part : OpenTag.Part)
  | content (e : OpenElement) (part : OpenElement.Part)

/-- What waits for the end of something inside it. -/
inductive Context where
  /-- A script with a template or an element in it. -/
  | script (s : Script)
  /-- A template with a substitution in it. -/
  | template (t : Template)
  /-- An opening tag with braces in it, which may be the value of an attribute at a place. -/
  | tag (t : OpenTag) (value : Option (OpenAttribute × Nat))
  /-- The content of an element with an element or braces in it. -/
  | content (e : OpenElement)

/-- What is being read, and what waits for it. -/
structure Situation where
  /-- What is being read. -/
  focus : Focus
  /-- What waits, the innermost first. -/
  outer : List Context

/-- The outcome of reading a character. -/
abbrev Scanned := Except ScanError Situation

/-- Fails at a place. -/
def failAt {α : Type} (offset : Nat) (cause : ScanError.Cause) : Except ScanError α :=
  .error ⟨offset, cause⟩

/-! ### Going in and out -/

/-- Goes on with a script. -/
def Script.goOn (s : Script) (part : Script.Part) (outer : List Context) : Scanned :=
  .ok ⟨.script s part, outer⟩

/-- Goes on with a template. -/
def Template.goOn (t : Template) (part : Template.Part) (outer : List Context) : Scanned :=
  .ok ⟨.template t part, outer⟩

/-- Goes on with an opening tag. -/
def OpenTag.goOn (t : OpenTag) (part : OpenTag.Part) (outer : List Context) : Scanned :=
  .ok ⟨.tag t part, outer⟩

/-- Goes on with the content of an element. -/
def OpenElement.goOn (e : OpenElement) (part : OpenElement.Part) (outer : List Context) : Scanned :=
  .ok ⟨.content e part, outer⟩

/-- Enters braces with a script in them. -/
def enterBraces (outer : List Context) : Scanned :=
  Script.goOn {} .between outer

/-- The script after a part that has a value. -/
def Script.afterValue (s : Script) (found : List Element) : Script :=
  { s with previous := .value, found := s.found ++ found }

/-- The opening tag with elements found in it. -/
def OpenTag.add (t : OpenTag) (found : List Element) : OpenTag :=
  { t with found := t.found ++ found }

/-- The opening tag with a further attribute. -/
def OpenTag.addAttribute (t : OpenTag) (a : OpenAttribute) (stop : Nat) (value : Option Value) :
    OpenTag :=
  { t with attributes := t.attributes ++ [⟨a.name, a.start, stop, value⟩] }

/-- The element with elements found in it. -/
def OpenElement.add (e : OpenElement) (found : List Element) : OpenElement :=
  { e with tag := e.tag.add found }

/-- Leaves an element or a template in which elements were found; `inner` are the elements that what
stands around it gets. -/
def leave (inner : List Element) : List Context → Scanned
  | .script s :: outer => (s.afterValue inner).goOn .between outer
  | .content e :: outer => (e.add inner).goOn .between outer
  -- Elements and templates are entered only from scripts and contents.
  | outer => (Script.afterValue {} inner).goOn .between outer

/-- Leaves the braces of a script at their closing brace. -/
def leaveBraces (here : Cursor) (s : Script) : List Context → Scanned
  | .template t :: outer => Template.goOn { t with found := t.found ++ s.found } .between outer
  | .tag t none :: outer => (t.add s.found).goOn .between outer
  | .tag t (some (a, start)) :: outer =>
    ((t.add s.found).addAttribute a (here.offset + 1)
      (some (.braced (here.since (start + 1))))).goOn .between outer
  | .content e :: outer => (e.add s.found).goOn .between outer
  -- The script is the outermost one, which stands in no braces.
  | _ => failAt here.offset .unopenedBracket

/-- The element of an opening tag that ends at a place. -/
def OpenTag.element (t : OpenTag) (openEnd stop : Nat) (selfClosing : Bool) : Element :=
  { tag := t.name
    start := t.start
    nameEnd := t.nameEnd
    openEnd
    stop
    attributes := t.attributes
    selfClosing
    children := t.found }

/-! ### Reading a character of an opening tag -/

/-- Reads a character between two parts of an opening tag. -/
def OpenTag.readBetween (t : OpenTag) (outer : List Context) (here : Cursor) (c : Char) : Scanned :=
  if Text.isAsciiBlank c then t.goOn .between outer
  else if c == '/' then t.goOn (.slash here.offset) outer
  else if c == '>' then OpenElement.goOn ⟨t, here.offset + 1⟩ .between outer
  else if c == '\x7b' then enterBraces (.tag t none :: outer)
  else if isAttributeChar c then t.goOn (.attribute here.offset) outer
  else failAt here.offset .strayCharacter

/-- Reads a character after the name of an attribute that ended at a place. -/
def OpenTag.readGap (t : OpenTag) (a : OpenAttribute) (stop : Nat) (outer : List Context)
    (here : Cursor) (c : Char) : Scanned :=
  if Text.isAsciiBlank c then t.goOn (.gap a stop) outer
  else if c == '=' then t.goOn (.equals a) outer
  else (t.addAttribute a stop none).readBetween outer here c

/-- Reads a character of an opening tag. -/
def OpenTag.read (t : OpenTag) (outer : List Context) (here : Cursor) (c : Char) :
    OpenTag.Part → Scanned
  | .name =>
    if isTagChar c then t.goOn .name outer
    else OpenTag.readBetween
      { t with name := String.ofList (here.since (t.start + 1)), nameEnd := here.offset }
      outer here c
  | .between => t.readBetween outer here c
  | .slash start =>
    if c == '>' then leave [t.element (here.offset + 1) (here.offset + 1) true] outer
    else failAt start .strayCharacter
  | .attribute start =>
    if isAttributeChar c then t.goOn (.attribute start) outer
    -- The character may already be the equals sign, or what follows an attribute without a value.
    else t.readGap ⟨String.ofList (here.since start), start⟩ here.offset outer here c
  | .gap a stop => t.readGap a stop outer here c
  | .equals a =>
    if Text.isAsciiBlank c then t.goOn (.equals a) outer
    else if c == '"' || c == '\'' then t.goOn (.quoted a c here.offset) outer
    else if c == '\x7b' then enterBraces (.tag t (some (a, here.offset)) :: outer)
    else failAt here.offset (.oddValue a.name)
  | .quoted a quote start =>
    if c == quote then
      (t.addAttribute a (here.offset + 1) (some (.quoted (here.since (start + 1))))).goOn
        .between outer
    else t.goOn (.quoted a quote start) outer

/-! ### Reading a character of a content -/

/-- Reads a character between two parts of a content. -/
def OpenElement.readBetween (e : OpenElement) (outer : List Context) (here : Cursor) (c : Char) :
    Scanned :=
  if c == '<' then e.goOn (.angle here.offset) outer
  else if c == '\x7b' then enterBraces (.content e :: outer)
  else e.goOn .between outer

/-- Reads the end of a closing tag that began at a place. -/
def OpenElement.close (e : OpenElement) (start : Nat) (outer : List Context) (here : Cursor) :
    Scanned :=
  let name := String.ofList (Text.trimmed (here.since (start + 2)))
  if name = e.tag.name then leave [e.tag.element e.openEnd (here.offset + 1) false] outer
  else failAt start (.mismatchedTag name e.tag.name)

/-- Reads a character of a content. -/
def OpenElement.read (e : OpenElement) (outer : List Context) (here : Cursor) (c : Char) :
    OpenElement.Part → Scanned
  | .between => e.readBetween outer here c
  | .angle start =>
    if c == '/' then e.goOn (.closing start) outer
    else if opensElement c then OpenTag.read { start } (.content e :: outer) here c .name
    else e.readBetween outer here c
  | .closing start =>
    if c == '>' then e.close start outer here else e.goOn (.closing start) outer

/-! ### Reading a character of a template -/

/-- Reads a character between two parts of a template. -/
def Template.readBetween (t : Template) (outer : List Context) (c : Char) : Scanned :=
  if c == '\\' then t.goOn .escaped outer
  else if c == '\x60' then leave t.found outer
  else if c == '$' then t.goOn .dollar outer
  else t.goOn .between outer

/-- Reads a character of a template. -/
def Template.read (t : Template) (outer : List Context) (c : Char) : Template.Part → Scanned
  | .between => t.readBetween outer c
  | .escaped => t.goOn .between outer
  | .dollar =>
    if c == '\x7b' then enterBraces (.template t :: outer) else t.readBetween outer c

/-! ### Reading a character of a script -/

/-- Reads a closing bracket in a script. -/
def Script.readClosing (s : Script) (outer : List Context) (here : Cursor) (c : Char) : Scanned :=
  match s.due with
  | d :: due =>
    if d = c then
      -- A brace may end a block, and then a statement follows; the other brackets hold a value.
      Script.goOn { s with due, previous := if c == '\x7d' then .punctuation else .value }
        .between outer
    else failAt here.offset .mismatchedBracket
  | [] =>
    -- No bracket of this script is open, so a brace ends the braces around it.
    if c == '\x7d' then leaveBraces here s outer else failAt here.offset .unopenedBracket

/-- Reads a character between two parts of a script. -/
def Script.readBetween (s : Script) (outer : List Context) (here : Cursor) (c : Char) : Scanned :=
  if c == '"' || c == '\'' then s.goOn (.string c here.offset false) outer
  else if c == '\x60' then Template.goOn ⟨here.offset, []⟩ .between (.script s :: outer)
  else if c == '/' then s.goOn (.slash here.offset) outer
  else if c == '<' && s.previous.allowsExpression then s.goOn (.angle here.offset) outer
  else if isClosing c then s.readClosing outer here c
  else if Text.isAsciiBlank c then s.goOn .between outer
  else if isWordChar c then s.goOn (.word here.offset) outer
  else match closing? c with
    | some d => Script.goOn { s with due := d :: s.due, previous := .punctuation } .between outer
    | none => Script.goOn { s with previous := .punctuation } .between outer

/-- The script after a word. -/
def Script.afterWord (s : Script) (word : List Char) : Script :=
  { s with
    previous := if leadingWords.contains (String.ofList word) then .leadingWord else .value }

/-- Reads a character of a string. -/
def Script.readString (s : Script) (outer : List Context) (quote : Char) (start : Nat)
    (escaped : Bool) (c : Char) : Scanned :=
  if escaped then s.goOn (.string quote start false) outer
  else if c == '\\' then s.goOn (.string quote start true) outer
  else if c == '\n' then failAt start .openString
  else if c == quote then (s.afterValue []).goOn .between outer
  else s.goOn (.string quote start false) outer

/-- Reads a character of a regular expression. -/
def Script.readPattern (s : Script) (outer : List Context) (start : Nat) (inClass escaped : Bool)
    (c : Char) : Scanned :=
  if escaped then s.goOn (.pattern start inClass false) outer
  else if c == '\\' then s.goOn (.pattern start inClass true) outer
  else if c == '[' then s.goOn (.pattern start true false) outer
  else if c == ']' then s.goOn (.pattern start false false) outer
  else if c == '/' && !inClass then (s.afterValue []).goOn .flags outer
  else if c == '\n' then failAt start .openPattern
  else s.goOn (.pattern start inClass false) outer

/-- Reads a character of a script. -/
def Script.read (s : Script) (outer : List Context) (here : Cursor) (c : Char) :
    Script.Part → Scanned
  | .between => s.readBetween outer here c
  | .word start =>
    if isWordChar c then s.goOn (.word start) outer
    else (s.afterWord (here.since start)).readBetween outer here c
  | .string quote start escaped => s.readString outer quote start escaped c
  | .slash start =>
    if c == '/' then s.goOn .lineComment outer
    else if c == '*' then s.goOn (.blockComment start false) outer
    else if s.previous.allowsExpression then s.readPattern outer start false false c
    -- After a value the slash divides.
    else Script.readBetween { s with previous := .punctuation } outer here c
  | .lineComment => s.goOn (if c == '\n' then .between else .lineComment) outer
  | .blockComment start starred =>
    if starred && c == '/' then s.goOn .between outer
    else s.goOn (.blockComment start (c == '*')) outer
  | .pattern start inClass escaped => s.readPattern outer start inClass escaped c
  | .flags => if c.isAlpha then s.goOn .flags outer else s.readBetween outer here c
  | .angle start =>
    if opensElement c then OpenTag.read { start } (.script s :: outer) here c .name
    -- No element opens here, and the character is read as if the bracket were an operator.
    else Script.readBetween { s with previous := .punctuation } outer here c

/-! ### Reading a text -/

/-- Reads a character of what is being read. -/
def Situation.read (s : Situation) (here : Cursor) (c : Char) : Scanned :=
  match s.focus with
  | .script script part => script.read s.outer here c part
  | .template t part => t.read s.outer c part
  | .tag t part => t.read s.outer here c part
  | .content e part => e.read s.outer here c part

/-- A place in a text and what is being read there. -/
structure Scan where
  /-- The place. -/
  cursor : Cursor
  /-- What is being read. -/
  situation : Situation

namespace Scan

/-- Before the first character: a script with nothing around it. -/
def start : Scan := ⟨.start, .script {} .between, []⟩

/-- Reads one character. -/
def step (s : Scan) (c : Char) : Except ScanError Scan :=
  (s.situation.read s.cursor c).map fun t => ⟨s.cursor.advance c, t⟩

/-- Reads a text. -/
def run (s : Scan) : List Char → Except ScanError Scan
  | [] => .ok s
  | c :: cs =>
    match s.step c with
    | .error e => .error e
    | .ok t => run t cs

@[simp]
theorem run_nil (s : Scan) : s.run [] = .ok s := rfl

/-- A text may be read in parts. -/
theorem run_append (s : Scan) (as bs : List Char) :
    s.run (as ++ bs) = (s.run as).bind fun t => t.run bs := by
  induction as generalizing s with
  | nil => rfl
  | cons c cs ih =>
    simp only [List.cons_append, run]
    cases s.step c with
    | error e => rfl
    | ok t => exact ih t

/-- The elements of a script that ends with the text. -/
def finishScript (s : Script) (outer : List Context) (here : Cursor) :
    Script.Part → Except ScanError (List Element)
  | .string _ start _ => failAt start .openString
  | .blockComment start _ => failAt start .openComment
  | .pattern start _ _ => failAt start .openPattern
  | .slash start =>
    if s.previous.allowsExpression then failAt start .openPattern else atEnd
  | .between | .word _ | .lineComment | .flags | .angle _ => atEnd
where
  /-- The elements, if nothing is open. -/
  atEnd : Except ScanError (List Element) :=
    if !outer.isEmpty then failAt here.offset .openBraces
    else if !s.due.isEmpty then failAt here.offset .openBracket
    else .ok s.found

/-- The elements of the text, if it ends here. -/
def finish (s : Scan) : Except ScanError (List Element) :=
  let offset := s.cursor.offset
  match s.situation.focus with
  | .script script part => finishScript script s.situation.outer s.cursor part
  | .template t _ => failAt t.start .openTemplate
  | .tag _ (.slash start) => failAt start .strayCharacter
  | .tag _ (.equals a) => failAt offset (.oddValue a.name)
  | .tag _ (.quoted _ _ start) => failAt start .openValue
  | .tag _ _ => failAt offset .openTag
  | .content _ (.closing start) => failAt start .openClosingTag
  | .content e _ => failAt offset (.openElement e.tag.name)

end Scan

/-- The outermost elements of a component file, with those inside them. -/
def scan (source : List Char) : Except ScanError (List Element) :=
  (Scan.start.run source).bind Scan.finish

end Mockup.Jsx
