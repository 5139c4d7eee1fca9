import Mockup.Decimal.Reader
import Mockup.Json.Basic
import Mockup.Json.Quoted

/-!
# Reading JSON

`Json.read?` reads one value from a whole text. Arrays and objects may nest to a fixed depth, and
that depth is what the recursion is on; within one of them the text that is left gets shorter.
Of fields with one key the last counts, and objects are read in key order.
-/

namespace Mockup.Json

/-- What is left of a text after something was read from its front. -/
structure Rest (cs : List Char) where
  /-- The characters that are left. -/
  chars : List Char
  /-- They are fewer than before. -/
  shorter : chars.length < cs.length

/-- The same rest, seen from a longer text. -/
def Rest.widen {cs ds : List Char} (r : Rest cs) (h : cs.length ≤ ds.length) : Rest ds :=
  ⟨r.chars, Nat.lt_of_lt_of_le r.shorter h⟩

/-- The blanks that may stand between the parts of a value. -/
def isGap (c : Char) : Bool :=
  c == ' ' || c == '\n' || c == '\t' || c == '\r'

/-- The text without the blanks at its front. -/
def skipGap (cs : List Char) : List Char :=
  cs.dropWhile isGap

/-- Skipping blanks makes a text no longer. -/
theorem length_skipGap (cs : List Char) : (skipGap cs).length ≤ cs.length :=
  (List.dropWhile_sublist _).length_le

/-- Reads a character after blanks. -/
def expect? (c : Char) (cs : List Char) : Option (Rest cs) :=
  match h : skipGap cs with
  | [] => none
  | d :: ds =>
    if d = c then
      some ⟨ds, by
        have := length_skipGap cs
        rw [h, List.length_cons] at this
        omega⟩
    else none

/-- Reads a fixed word. -/
def word? (word : List Char) (j : Json) (cs : List Char) : Option (Json × Rest cs) :=
  if h : word.isPrefixOf cs ∧ word ≠ [] then
    some (j, ⟨cs.drop word.length, by
      have h1 := (List.isPrefixOf_iff_prefix.1 h.1).length_le
      have h2 := List.length_pos_iff.2 h.2
      rw [List.length_drop]
      omega⟩)
  else none

/-- Reads a string after its opening quote. -/
def string? (cs : List Char) : Option (String × Rest cs) :=
  match h : unquote? cs with
  | none => none
  | some (s, rest) => some (String.ofList s, ⟨rest, length_of_unquote? h⟩)

/-- The largest integer that the leading digits of a number may form. -/
def maxSignificand : Nat := UInt64.size - 1

/-- The digits of a number as far as they fit, with the exponent that stands for the others. -/
structure Significand where
  /-- The number that the kept digits form. -/
  digits : Nat
  /-- The exponent of ten of the last kept digit. -/
  exponent : Int
  /-- Whether a digit was left out. -/
  full : Bool

/-- Takes in a digit before the point. -/
def Significand.addWhole (s : Significand) (c : Char) : Significand :=
  let n := 10 * s.digits + (c.toNat - '0'.toNat)
  if s.full || n > maxSignificand then { s with exponent := s.exponent + 1, full := true }
  else { s with digits := n }

/-- Takes in a digit after the point. -/
def Significand.addFraction (s : Significand) (c : Char) : Significand :=
  let n := 10 * s.digits + (c.toNat - '0'.toNat)
  if s.full || n > maxSignificand then { s with full := true }
  else { s with digits := n, exponent := s.exponent - 1 }

/-- The largest exponent that is taken into account. -/
def maxExponent : Nat := UInt32.size / 2 - 1

/-- The value of a number with a fraction or an exponent. An exponent that is too large for any
value counts only by its sign. -/
def floatValue? (s : Significand) (negativeExponent : Bool) (exponent : Nat) : Option Float :=
  if exponent > maxExponent then
    if s.digits = 0 || negativeExponent then some 0.0 else none
  else
    Decimal.scaled?
      ⟨s.digits, s.exponent + if negativeExponent then -(exponent : Int) else exponent⟩

/-- The integer part of a number is one zero, or digits that do not begin with a zero. -/
def isWhole (ds : List Char) : Bool :=
  match ds with
  | [] => false
  | ['0'] => true
  | c :: _ => c != '0'

/-- An integer of 64 bits; one that is too small, and minus zero, is a floating-point value. -/
def integerValue (negative : Bool) (n : Nat) : Number :=
  if !negative then .integer n
  else if n = 0 || n > UInt64.size / 2 then .float (-n.toUInt64.toFloat)
  else .integer (-n)

/-- Reads the absolute value of a number: the number and what follows it. -/
def magnitude? (negative : Bool) (cs : List Char) : Option (Number × List Char) := do
  let (whole, rest) := Decimal.spanDigits cs
  if !isWhole whole then none
  let s := whole.foldl Significand.addWhole ⟨0, 0, false⟩
  let (fraction, afterFraction) ← match rest with
    | '.' :: rest =>
      let (ds, rest) := Decimal.spanDigits rest
      if ds.isEmpty then none else some (some ds, rest)
    | rest => some (none, rest)
  -- Digits after the point are tried again even where one before it did not fit.
  let t := (fraction.getD []).foldl Significand.addFraction { s with full := false }
  let isExponent (c : Char) : Bool := c == 'e' || c == 'E'
  let signed (x : Float) : Number := .float (if negative then -x else x)
  if afterFraction.head?.any isExponent then
    let (negativeExponent, rest) := Decimal.spanSign (afterFraction.drop 1)
    let (ds, rest) := Decimal.spanDigits rest
    if ds.isEmpty then none
    let x ← floatValue? t negativeExponent (Decimal.ofDigits ds)
    some (signed x, rest)
  else if fraction.isSome || s.full then
    let x ← floatValue? t false 0
    some (signed x, afterFraction)
  else some (integerValue negative s.digits, afterFraction)

/-- Reads a number. -/
def number? (cs : List Char) : Option (Json × Rest cs) :=
  let (negative, rest) := match cs with
    | '-' :: rest => (true, rest)
    | rest => (false, rest)
  match magnitude? negative rest with
  | none => none
  | some (n, rest) =>
    if h : rest.length < cs.length then some (.number n, ⟨rest, h⟩) else none

/-- Reads things with commas between them, up to a closing character. -/
def series? {α : Type} (close : Char) (one : (cs : List Char) → Option (α × Rest cs))
    (cs : List Char) : Option (List α × Rest cs) :=
  match one cs with
  | none => none
  | some (a, r) =>
    match expect? close r.chars with
    | some r' => some ([a], r'.widen (Nat.le_of_lt r.shorter))
    | none =>
      match expect? ',' r.chars with
      | none => none
      | some r' =>
        have := r.shorter
        have := r'.shorter
        match series? close one r'.chars with
        | none => none
        | some (as, r'') => some (a :: as, r''.widen (by omega))
termination_by cs.length

/-- Reads a field: a key, a colon and a value. -/
def field? (value? : (cs : List Char) → Option (Json × Rest cs)) (cs : List Char) :
    Option ((String × Json) × Rest cs) := do
  let opening ← expect? '"' cs
  let (key, r) ← string? opening.chars
  let colon ← expect? ':' r.chars
  let (j, r') ← value? colon.chars
  have := opening.shorter
  have := r.shorter
  have := colon.shorter
  some ((key, j), r'.widen (by omega))

/-- Reads a value in which arrays and objects nest at most to a depth. -/
def value? (depth : Nat) (cs : List Char) : Option (Json × Rest cs) :=
  have hgap := length_skipGap cs
  match h : skipGap cs with
  | [] => none
  | c :: rest =>
    have hlen : rest.length < cs.length := by
      rw [h, List.length_cons] at hgap
      omega
    if c = '"' then
      (string? rest).map fun (s, r) => (.string s, r.widen (Nat.le_of_lt hlen))
    else if c = '[' ∨ c = '\x7b' then
      match depth with
      | 0 => none
      | depth + 1 =>
        if c = '[' then
          match expect? ']' rest with
          | some r => some (.array [], r.widen (Nat.le_of_lt hlen))
          | none => (series? ']' (value? depth) rest).map fun (items, r) =>
              (.array items, r.widen (Nat.le_of_lt hlen))
        else
          match expect? '\x7d' rest with
          | some r => some (.object [], r.widen (Nat.le_of_lt hlen))
          | none => (series? '\x7d' (field? (value? depth)) rest).map fun (fields, r) =>
              (.object (Dict.ofList fields).entries, r.widen (Nat.le_of_lt hlen))
    else
      let scalar := if c = 'n' then word? "null".toList .null (c :: rest)
        else if c = 't' then word? "true".toList (.bool true) (c :: rest)
        else if c = 'f' then word? "false".toList (.bool false) (c :: rest)
        else number? (c :: rest)
      scalar.map fun (j, r) => (j, r.widen (by rw [h] at hgap; exact hgap))

/-- How deep arrays and objects may nest. -/
def maxNesting : Nat := 127

/-- Reads a whole text as one value with a nesting of at most `depth`. -/
def readNested? (depth : Nat) (text : String) : Option Json :=
  match value? depth text.toList with
  | some (j, r) => if (skipGap r.chars).isEmpty then some j else none
  | none => none

/-- Reads a whole text as one value. -/
def read? (text : String) : Option Json :=
  readNested? maxNesting text

end Mockup.Json
