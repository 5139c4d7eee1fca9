import Mockup.Decimal.Reader
import Mockup.Json.Basic
import Mockup.Text.Blank

/-!
# YAML values

The values of settings files. A scalar is a text, and only a plain one, without quotes, can also
stand for something else: nothing, a truth value or a number.
-/

namespace Mockup

/-- A YAML value. -/
inductive Yaml where
  /-- A text, and whether it is plain. -/
  | scalar (text : String) (isPlain : Bool)
  | sequence (items : List Yaml)
  | mapping (entries : List (String × Yaml))
  deriving Repr, Inhabited

namespace Yaml

/-- The value that stands where nothing is written. -/
def null : Yaml := .scalar "" true

/-- Whether a plain text stands for nothing. -/
def isNullText (s : String) : Bool :=
  s == "" || s == "~" || s == "null" || s == "Null" || s == "NULL"

/-- The truth value that a plain text stands for. -/
def boolOf? (s : String) : Option Bool :=
  if s == "true" || s == "True" || s == "TRUE" then some true
  else if s == "false" || s == "False" || s == "FALSE" then some false
  else none

/-- The digits of a number in another base than ten, if its front names one. -/
def based? : List Char → Option (Nat × List Char)
  | '0' :: 'x' :: ds => some (16, ds)
  | '0' :: 'o' :: ds => some (8, ds)
  | '0' :: 'b' :: ds => some (2, ds)
  | _ => none

/-- The value of a digit in a base. -/
def digitOf? (base : Nat) (c : Char) : Option Nat :=
  let n :=
    if c.isDigit then c.toNat - '0'.toNat
    else if 'a' ≤ c ∧ c ≤ 'f' then c.toNat - 'a'.toNat + 10
    else if 'A' ≤ c ∧ c ≤ 'F' then c.toNat - 'A'.toNat + 10
    else base
  if n < base then some n else none

/-- The number that some digits write in a base; there must be at least one. -/
def natOf? (base : Nat) (ds : List Char) : Option Nat :=
  if ds.isEmpty then none
  else ds.foldlM (fun n c => (digitOf? base c).map fun d => base * n + d) 0

/-- Whether a text has digits only and a zero in front of others, which makes it no number. -/
def isPadded : List Char → Bool
  | '0' :: d :: ds => (d :: ds).all Char.isDigit
  | _ => false

/-- The number without sign that a text writes. -/
def magnitude? (cs : List Char) : Option Nat :=
  match based? cs with
  | some (base, ds) => natOf? base ds
  | none => if isPadded cs then none else natOf? 10 cs

/-- The integer that a plain text stands for. -/
def intOf? : List Char → Option Int
  | '-' :: cs => (magnitude? cs).map fun n => -(n : Int)
  | '+' :: cs => (magnitude? cs).map Int.ofNat
  | cs => (magnitude? cs).map Int.ofNat

/-- The text without its sign. -/
def unsigned : List Char → List Char
  | '-' :: cs | '+' :: cs => cs
  | cs => cs

/-- The floating-point value that a plain text stands for. -/
def floatOf? (s : String) : Option Float :=
  if s == ".inf" || s == ".Inf" || s == ".INF" || s == "+.inf" || s == "+.Inf" || s == "+.INF" then
    some Decimal.infinity
  else if s == "-.inf" || s == "-.Inf" || s == "-.INF" then some (-Decimal.infinity)
  else if s == ".nan" || s == ".NaN" || s == ".NAN" then some Decimal.notANumber
  else if isPadded (unsigned s.toList) then none
  else (Decimal.floatOf? s.toList).filter Float.isFinite

/-- Whether a plain text stands for something else than a text. -/
def isSpecial (s : String) : Bool :=
  isNullText s || (boolOf? s).isSome || (intOf? s.toList).isSome || (floatOf? s).isSome

end Yaml

end Mockup
