import Mockup.Decimal.Shortest

/-!
# Reading decimals

Two ways from digits to a floating-point value. `Decimal.nearest` rounds once, to the nearest value.
`Decimal.scaled?` rounds the digits and then the product with a power of ten, which can differ from
the nearest value in the last place. `Decimal.floatOf?` reads a whole text.
-/

namespace Mockup.Decimal

/-- The number that a list of decimal digits denotes. -/
def ofDigits (ds : List Char) : Nat :=
  ds.foldl (fun n c => 10 * n + (c.toNat - '0'.toNat)) 0

/-- The value of an infinite quantity. -/
def infinity : Float := 1.0 / 0.0

/-- A value that is no number. -/
def notANumber : Float := 0.0 / 0.0

/-- The value nearest to `digits · 10 ^ exponent`. Numbers far outside the range are settled by
their order of magnitude. -/
def nearest (d : Decimal) : Float :=
  let top := (digitCount d.digits : Int) + d.exponent
  -- Beyond these bounds the powers of ten would only cost time.
  if d.digits = 0 || top < -400 then 0.0
  else if top > 400 then infinity
  else Float.ofScientific d.digits (d.exponent < 0) d.exponent.natAbs

/-- The largest exponent of a power of ten below the largest finite value. -/
def maxPower : Nat := 308

/-- The power of ten with this exponent. -/
def powerOfTen (e : Nat) : Float :=
  Float.ofScientific 1 false e

/-- Multiplies a value by a power of ten, dividing for a negative exponent. A value beyond the range
has no result. -/
def scaleBy? (x : Float) (exponent : Int) : Option Float :=
  if exponent.natAbs ≤ maxPower then
    if 0 ≤ exponent then
      let y := x * powerOfTen exponent.natAbs
      if y.isInf then none else some y
    else some (x / powerOfTen exponent.natAbs)
  else if x == 0.0 then some x
  else if 0 ≤ exponent then none
  else scaleBy? (x / powerOfTen maxPower) (exponent + maxPower)
termination_by exponent.natAbs
decreasing_by
  simp only [maxPower] at *
  omega

/-- The rounded digits times the power of ten, rounded again. -/
def scaled? (d : Decimal) : Option Float :=
  scaleBy? d.digits.toUInt64.toFloat d.exponent

/-- The digits at the front of a text, and the rest. -/
def spanDigits (cs : List Char) : List Char × List Char :=
  (cs.takeWhile Char.isDigit, cs.dropWhile Char.isDigit)

/-- Splits a sign off; no sign counts as a plus. -/
def spanSign : List Char → Bool × List Char
  | '-' :: cs => (true, cs)
  | '+' :: cs => (false, cs)
  | cs => (false, cs)

/-- The exponent that follows the digits of a number: nothing, or `e`, a sign and digits. -/
def exponentOf? : List Char → Option Int
  | [] => some 0
  | c :: cs =>
    if c == 'e' || c == 'E' then
      let (negative, ds) := spanSign cs
      if ds.isEmpty || !ds.all Char.isDigit then none
      else some (if negative then -(ofDigits ds : Int) else ofDigits ds)
    else none

/-- The absolute value that a text denotes: digits with an optional point and an exponent, or the
name of an infinite value or of a value that is no number, in any case. -/
def magnitudeOf? (cs : List Char) : Option Float :=
  let name := String.ofList (cs.map Char.toLower)
  if name == "inf" || name == "infinity" then some infinity
  else if name == "nan" then some notANumber
  else
    let (whole, rest) := spanDigits cs
    let (fraction, rest) := match rest with
      | '.' :: rest => spanDigits rest
      | rest => ([], rest)
    if whole.isEmpty && fraction.isEmpty then none
    else (exponentOf? rest).map fun e => nearest ⟨ofDigits (whole ++ fraction), e - fraction.length⟩

/-- The value that a text denotes, without blanks around it. -/
def floatOf? (cs : List Char) : Option Float :=
  let (negative, rest) := spanSign cs
  (magnitudeOf? rest).map fun x => if negative then -x else x

end Mockup.Decimal
