/-!
# Characters of XML

The classes of characters on which the grammar of XML rests.
-/

namespace Mockup.Xml

/-- Whether a code point lies in one of some ranges. -/
def inRanges (ranges : List (Nat × Nat)) (n : Nat) : Bool :=
  ranges.any fun (first, last) => first ≤ n && n ≤ last

/-- The four blanks of XML. -/
def isSpace (c : Char) : Bool :=
  c == ' ' || c == '\t' || c == '\n' || c == '\r'

/-- A character that may stand in a document at all. -/
def isAllowed (c : Char) : Bool :=
  c == '\t' || c == '\n' || c == '\r' || (0x20 ≤ c.toNat && c.toNat != 0xfffe && c.toNat != 0xffff)

/-- The characters beyond ASCII with which a name may begin. -/
def nameStartRanges : List (Nat × Nat) :=
  [(0xc0, 0xd6), (0xd8, 0xf6), (0xf8, 0x2ff), (0x370, 0x37d), (0x37f, 0x1fff), (0x200c, 0x200d),
    (0x2070, 0x218f), (0x2c00, 0x2fef), (0x3001, 0xd7ff), (0xf900, 0xfdcf), (0xfdf0, 0xfffd),
    (0x10000, 0xeffff)]

/-- The characters beyond ASCII that may stand in a name but not at its front. -/
def nameInnerRanges : List (Nat × Nat) :=
  [(0xb7, 0xb7), (0x300, 0x36f), (0x203f, 0x2040)]

/-- A character with which a name may begin. -/
def isNameStart (c : Char) : Bool :=
  c.isAlpha || c == ':' || c == '_' || inRanges nameStartRanges c.toNat

/-- A character that may stand in a name. -/
def isNameChar (c : Char) : Bool :=
  isNameStart c || c.isDigit || c == '-' || c == '.' || inRanges nameInnerRanges c.toNat

/-- The first byte of the UTF-8 encoding of a character, as a character. -/
def firstByte (c : Char) : Char :=
  let n := c.toNat
  if n < 0x80 then c
  else if n < 0x800 then Char.ofNat (0xc0 + n / 0x40)
  else if n < 0x10000 then Char.ofNat (0xe0 + n / 0x1000)
  else Char.ofNat (0xf0 + n / 0x40000)

end Mockup.Xml
