import Mockup.Yaml.Basic

/-!
# Reading YAML

Reads a document of block mappings and sequences, with flow collections and quoted scalars that
may go on over several lines. Lines that are blank or hold only a comment are left out beforehand.
What is nested is found by indentation; a bound on the number of steps, taken from the length of
the text, makes reading end.
-/

namespace Mockup.Yaml

/-- A line that holds something. -/
structure Line where
  /-- The number of spaces in front. -/
  indent : Nat
  /-- What follows them, without the blanks at the end. -/
  content : List Char
  deriving Repr

/-- A blank inside a line. -/
def isGap (c : Char) : Bool :=
  c == ' ' || c == '\t'

/-- The text from the first character on that is no blank. -/
def skipGap (cs : List Char) : List Char :=
  cs.dropWhile isGap

/-- Whether nothing but a comment is left of a line. -/
def isSpent (cs : List Char) : Bool :=
  match skipGap cs with
  | [] => true
  | c :: _ => c == '#'

/-- The lines of a text that hold something. -/
def linesOf (cs : List Char) : List Line :=
  ((Text.pieces (· == '\n') cs).map fun l =>
    let content := l.dropWhile (· == ' ')
    ({ indent := l.length - content.length
       content := Text.dropTrailing (fun c => isGap c || c == '\r') content } : Line)).filter
    fun l => !isSpent l.content

/-! ### Scalars -/

/-- The escapes of one letter in double quotes. -/
def shortEscape? : Char → Option Char
  | '0' => some '\x00'
  | 'a' => some '\x07'
  | 'b' => some '\x08'
  | 't' | '\t' => some '\t'
  | 'n' => some '\n'
  | 'v' => some '\x0b'
  | 'f' => some '\x0c'
  | 'r' => some '\r'
  | 'e' => some '\x1b'
  | ' ' => some ' '
  | '"' => some '"'
  | '/' => some '/'
  | '\\' => some '\\'
  | 'N' => some '\u0085'
  | '_' => some '\u00a0'
  | 'L' => some '\u2028'
  | 'P' => some '\u2029'
  | _ => none

/-- The number of digits of an escape that gives the code of a character. -/
def escapeDigits? : Char → Option Nat
  | 'x' => some 2
  | 'u' => some 4
  | 'U' => some 8
  | _ => none

/-- The character with a code, if there is one. -/
def charOf? (n : Nat) : Option Char :=
  if n.isValidChar then some (Char.ofNat n) else none

/-- The text in double quotes, the first of which was passed, and the rest after them. -/
def doubleQuoted? (fuel : Nat) (cs : List Char) : Option (List Char × List Char) :=
  match fuel, cs with
  | 0, _ | _, [] | _, ['\\'] => none
  | _ + 1, '"' :: rest => some ([], rest)
  | n + 1, '\\' :: c :: rest =>
    match escapeDigits? c with
    | some k => do
      let digits := rest.take k
      if digits.length < k then none
      let d ← (natOf? 16 digits).bind charOf?
      let (s, rest) ← doubleQuoted? n (rest.drop k)
      return (d :: s, rest)
    | none => do
      let d ← shortEscape? c
      let (s, rest) ← doubleQuoted? n rest
      return (d :: s, rest)
  | n + 1, c :: rest => (doubleQuoted? n rest).map fun (s, rest) => (c :: s, rest)

/-- The text in single quotes, the first of which was passed, and the rest after them. A quote
inside is written twice. -/
def singleQuoted? : List Char → Option (List Char × List Char)
  | [] => none
  | '\'' :: '\'' :: rest => (singleQuoted? rest).map fun (s, rest) => ('\'' :: s, rest)
  | '\'' :: rest => some ([], rest)
  | c :: rest => (singleQuoted? rest).map fun (s, rest) => (c :: s, rest)

/-- A quoted scalar at the front of a text, if there is one, and the rest after it. -/
def quoted? : List Char → Option (List Char × List Char)
  | '"' :: cs => doubleQuoted? (cs.length + 1) cs
  | '\'' :: cs => singleQuoted? cs
  | _ => none

/-- Whether a text starts with a quote. -/
def isQuoted : List Char → Bool
  | c :: _ => c == '"' || c == '\''
  | [] => false

/-- The characters that end a plain scalar in a flow collection. -/
def isFlowMark (c : Char) : Bool :=
  c == ',' || c == '[' || c == ']' || c == '\x7b' || c == '\x7d'

/-- Whether a plain scalar may start with this text. -/
def startsPlain (inFlow : Bool) : List Char → Bool
  | [] => false
  | c :: cs =>
    if c == '-' || c == '?' || c == ':' then
      match cs with
      | [] => false
      | d :: _ => !isGap d && !(inFlow && isFlowMark d)
    else !isFlowMark c && !isGap c &&
      !(['#', '&', '*', '!', '|', '>', '\'', '"', '%', '@', '\x60'].contains c)

/-- Whether a colon before this text ends a plain scalar. -/
def endsKey (inFlow : Bool) : List Char → Bool
  | [] => true
  | c :: _ => isGap c || (inFlow && isFlowMark c)

/-- The part of a text up to a comment, a colon that ends a key, or a mark of a flow collection. -/
def plainSpan (inFlow afterGap : Bool) : List Char → List Char × List Char
  | [] => ([], [])
  | c :: cs =>
    if (c == ':' && endsKey inFlow cs) || (c == '#' && afterGap) || (inFlow && isFlowMark c) then
      ([], c :: cs)
    else
      let (s, rest) := plainSpan inFlow (isGap c) cs
      (c :: s, rest)

/-- A plain scalar at the front of a text and the rest after it. -/
def plain? (inFlow : Bool) (cs : List Char) : Option (List Char × List Char) :=
  if startsPlain inFlow cs then
    let (s, rest) := plainSpan inFlow false cs
    some (Text.dropTrailing isGap s, rest)
  else none

/-! ### Flow collections -/

/-- The key of an entry and the rest after its colon. -/
def key? (inFlow : Bool) (cs : List Char) : Option (String × List Char) := do
  let (s, rest) ← if isQuoted cs then quoted? cs else plain? inFlow cs
  match skipGap rest with
  | ':' :: rest => if endsKey inFlow rest then some (String.ofList s, skipGap rest) else none
  | _ => none

mutual

/-- A value inside a flow collection and the rest after it. -/
def flowValue? : Nat → List Char → Option (Yaml × List Char)
  | 0, _ => none
  | n + 1, cs =>
    match cs with
    | '[' :: rest => (flowItems? n (skipGap rest)).map fun (vs, rest) => (.sequence vs, rest)
    | '\x7b' :: rest => (flowEntries? n (skipGap rest)).map fun (es, rest) => (.mapping es, rest)
    | cs =>
      if isQuoted cs then
        (quoted? cs).map fun (s, rest) => (.scalar (String.ofList s) false, rest)
      else (plain? true cs).map fun (s, rest) => (.scalar (String.ofList s) true, rest)

/-- The items of a flow sequence and the rest after its end. -/
def flowItems? : Nat → List Char → Option (List Yaml × List Char)
  | 0, _ => none
  | n + 1, cs =>
    match cs with
    | ']' :: rest => some ([], rest)
    | cs => do
      let (v, rest) ← flowValue? n cs
      match skipGap rest with
      | ',' :: rest => (flowItems? n (skipGap rest)).map fun (vs, rest) => (v :: vs, rest)
      | ']' :: rest => some ([v], rest)
      | _ => none

/-- The entries of a flow mapping and the rest after its end. -/
def flowEntries? : Nat → List Char → Option (List (String × Yaml) × List Char)
  | 0, _ => none
  | n + 1, cs =>
    match cs with
    | '\x7d' :: rest => some ([], rest)
    | cs => do
      let (k, rest) ← key? true cs
      let (v, rest) ← match rest with
        | ',' :: _ | '\x7d' :: _ => some (null, rest)
        | rest => flowValue? n rest
      match skipGap rest with
      | ',' :: rest =>
        (flowEntries? n (skipGap rest)).map fun (es, rest) => ((k, v) :: es, rest)
      | '\x7d' :: rest => some ([(k, v)], rest)
      | _ => none

end

/-- The value of a text that stands on one line. -/
def inlineValue? (cs : List Char) : Option Yaml := do
  let (v, rest) ← match cs with
    | '[' :: _ | '\x7b' :: _ => flowValue? (2 * cs.length + 2) cs
    | cs =>
      if isQuoted cs then
        (quoted? cs).map fun (s, rest) => (Yaml.scalar (String.ofList s) false, rest)
      else (plain? false cs).map fun (s, rest) => (.scalar (String.ofList s) true, rest)
  if isSpent rest then some v else none

/-- Whether a value can go on in the next line. -/
def goesOn (cs : List Char) : Bool :=
  startsPlain false cs && (plainSpan false false cs).2.isEmpty

/-- A plain scalar with the lines that it goes on in, which are indented more than `indent`. -/
def foldedLines (indent : Nat) (cs : List Char) (lines : List Line) : List Char × List Line :=
  let more := lines.takeWhile fun l => indent < l.indent
  (more.foldl (fun s l => s ++ ' ' :: l.content) cs, lines.drop more.length)

/-- Whether a text begins with a mark that another one must close. -/
def isOpener : List Char → Bool
  | c :: _ => c == '[' || c == '\x7b' || c == '"' || c == '\''
  | [] => false

/-- The value of a text that goes on in as many lines as it takes to close what it opens, and the
lines after it. -/
def closedValue? (cs : List Char) : List Line → Option (Yaml × List Line)
  | [] => (inlineValue? cs).map fun v => (v, [])
  | l :: lines =>
    match inlineValue? cs with
    | some v => some (v, l :: lines)
    | none => if isOpener cs then closedValue? (cs ++ ' ' :: l.content) lines else none

/-- The value of a text that begins on a line, and the lines after it. -/
def lineValue? (indent : Nat) (cs : List Char) (lines : List Line) :
    Option (Yaml × List Line) :=
  if goesOn cs then
    let (cs, lines) := foldedLines indent cs lines
    (inlineValue? cs).map fun v => (v, lines)
  else closedValue? cs lines

/-! ### Blocks -/

/-- Whether a line is an item of a sequence. -/
def Line.isItem (l : Line) : Bool :=
  match l.content with
  | '-' :: rest => endsKey false rest
  | _ => false

mutual

/-- The value that begins with the first of some lines, and the lines after it. -/
def block? : Nat → List Line → Option (Yaml × List Line)
  | 0, _ => none
  | _, [] => none
  | n + 1, l :: lines =>
    if l.isItem then
      (blockItems? n l.indent (l :: lines)).map fun (vs, rest) => (.sequence vs, rest)
    else if (key? false l.content).isSome then
      (blockEntries? n l.indent (l :: lines)).map fun (es, rest) => (.mapping es, rest)
    else lineValue? l.indent l.content lines

/-- The items of a sequence with an indentation, and the lines after it. -/
def blockItems? : Nat → Nat → List Line → Option (List Yaml × List Line)
  | 0, _, _ => none
  | _, _, [] => some ([], [])
  | n + 1, indent, l :: lines => do
    if indent < l.indent then none
    if l.indent < indent ∨ !l.isItem then return ([], l :: lines)
    -- What follows the dash is read as a line of its own, indented by where it stands.
    let content := skipGap (l.content.drop 1)
    let (v, rest) ←
      if isSpent content then blockBelow? n indent false lines
      else block? n (⟨indent + (l.content.length - content.length), content⟩ :: lines)
    let (vs, rest) ← blockItems? n indent rest
    return (v :: vs, rest)

/-- The entries of a mapping with an indentation, and the lines after it. -/
def blockEntries? : Nat → Nat → List Line → Option (List (String × Yaml) × List Line)
  | 0, _, _ => none
  | _, _, [] => some ([], [])
  | n + 1, indent, l :: lines => do
    if indent < l.indent then none
    if l.indent < indent ∨ l.isItem then return ([], l :: lines)
    let (k, content) ← key? false l.content
    let (v, rest) ←
      if isSpent content then blockBelow? n indent true lines
      else lineValue? indent content lines
    let (es, rest) ← blockEntries? n indent rest
    return ((k, v) :: es, rest)

/-- The value in the lines below an item or a key: one that is indented more, a sequence that is
indented as much if `withItems` holds, or nothing. -/
def blockBelow? : Nat → Nat → Bool → List Line → Option (Yaml × List Line)
  | 0, _, _, _ => none
  | _, _, _, [] => some (null, [])
  | n + 1, indent, withItems, l :: lines =>
    if indent < l.indent then block? n (l :: lines)
    else if withItems && l.indent == indent && l.isItem then
      (blockItems? n indent (l :: lines)).map fun (vs, rest) => (.sequence vs, rest)
    else some (null, l :: lines)

end

/-! ### Documents -/

/-- Whether a character may stand in a document. -/
def isAllowed (c : Char) : Bool :=
  c == '\t' || c == '\n' || c == '\r' || c == '\u0085' || (!Text.isControl c &&
    c.toNat != 0xfffe && c.toNat != 0xffff)

/-- Whether a line is a mark of the given text. -/
def Line.isMark (mark : String) (l : Line) : Bool :=
  l.indent == 0 && l.content == mark.toList

/-- The value of some lines, which is null if there are none. -/
def document? (lines : List Line) : Option Yaml :=
  match lines with
  | [] => some null
  | lines =>
    let steps := lines.foldl (fun n l => n + l.content.length + 4) 0
    match block? (4 * steps) lines with
    | some (v, []) => some v
    | _ => none

/-- The document that a text writes. A text without any document gives null. -/
def read? (text : String) : Option Yaml :=
  let cs := text.toList
  let cs := match cs with
    | c :: rest => if c.toNat = 0xfeff then rest else cs
    | [] => []
  if cs.all isAllowed then
    let lines := linesOf cs
    let lines := match lines with
      | l :: rest => if l.isMark "---" then rest else l :: rest
      | [] => []
    document? (lines.takeWhile fun l => !l.isMark "...")
  else none

end Mockup.Yaml
