import Mockup.Text.Split

/-!
# Blank characters

The characters that count as blank, and the operations that every reader of labels, class names
and attribute values shares: removing the blanks at both ends, splitting into words, and asking
whether a text is blank throughout.
-/

namespace Mockup.Text

/-- A blank is a character with the Unicode property `White_Space`. -/
def isBlank (c : Char) : Bool :=
  let n := c.toNat
  (0x09 ≤ n && n ≤ 0x0d) || n == 0x20 || n == 0x85 || n == 0xa0 || n == 0x1680 ||
    (0x2000 ≤ n && n ≤ 0x200a) || n == 0x2028 || n == 0x2029 || n == 0x202f || n == 0x205f ||
    n == 0x3000

/-- The five ASCII blanks: space, tab, line feed, form feed and carriage return. -/
def isAsciiBlank (c : Char) : Bool :=
  c == ' ' || c == '\t' || c == '\n' || c == '\x0c' || c == '\r'

/-- A control character has the general category `Cc`. -/
def isControl (c : Char) : Bool :=
  c.toNat < 0x20 || (0x7f ≤ c.toNat && c.toNat ≤ 0x9f)

/-- The text without the blanks at its two ends. -/
def trimmed (cs : List Char) : List Char :=
  dropTrailing isBlank (cs.dropWhile isBlank)

/-- The words of a text: its longest runs without a blank. -/
def wordsOf (cs : List Char) : List (List Char) :=
  (pieces isBlank cs).filter fun w => !w.isEmpty

/-- A word is not empty. -/
theorem ne_nil_of_mem_wordsOf {w cs : List Char} (h : w ∈ wordsOf cs) : w ≠ [] := by
  have := (List.mem_filter.1 h).2
  simpa using this

/-- A word holds no blank. -/
theorem not_isBlank_of_mem_wordsOf {w cs : List Char} (h : w ∈ wordsOf cs) :
    ∀ c ∈ w, isBlank c = false :=
  not_sep_of_mem_pieces (List.mem_filter.1 h).1

/-- `trimmed` on strings. -/
def trim (s : String) : String :=
  String.ofList (trimmed s.toList)

/-- `wordsOf` on strings. -/
def words (s : String) : List String :=
  (wordsOf s.toList).map String.ofList

/-- Whether a text has no character but blanks. -/
def isAllBlank (s : String) : Bool :=
  s.toList.all isBlank

/-- The words of a text with one space between neighbours. -/
def collapsed (s : String) : String :=
  " ".intercalate (words s)

end Mockup.Text
