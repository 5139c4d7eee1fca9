/-!
# Binary numbers

A finite `Float` is a signed product `mantissa · 2 ^ exponent`. `Binary` holds the three parts, so
that rules on floating-point values can be stated in exact integer arithmetic.
-/

namespace Mockup

/-- The number `± mantissa · 2 ^ exponent`. -/
structure Binary where
  /-- Whether the sign is a minus. -/
  negative : Bool
  /-- The integer that is scaled. -/
  mantissa : Nat
  /-- The power of two that scales it. -/
  exponent : Int
  deriving Repr, DecidableEq

namespace Binary

/-- The value of the leading mantissa bit, which a `Float` does not store. -/
def hidden : Nat := Nat.pow 2 52

/-- The largest exponent that a `Float` stores, which marks infinities and values that are no
number. -/
def maxBiased : Nat := 2047

/-- The exponent of the smallest positive `Float`. -/
def minExponent : Int := -1074

/-- The parts of a floating-point value; infinities and values that are no number have none. -/
def ofFloat? (x : Float) : Option Binary :=
  let bits := x.toBits.toNat
  let biased : Nat := bits / hidden % maxBiased.succ
  let fraction : Nat := bits % hidden
  let negative := bits / hidden / maxBiased.succ == 1
  if biased = maxBiased then none
  else if biased = 0 then some ⟨negative, fraction, minExponent⟩
  else some ⟨negative, fraction + hidden, (biased : Int) - 1 + minExponent⟩

/-- Whether the number is an integer. -/
def isIntegral (b : Binary) : Bool :=
  b.mantissa % Nat.pow 2 (-b.exponent).toNat == 0

/-- The integer part of the absolute value. -/
def floorAbs (b : Binary) : Nat :=
  b.mantissa * Nat.pow 2 b.exponent.toNat / Nat.pow 2 (-b.exponent).toNat

/-- The number with its fractional part dropped. -/
def truncated (b : Binary) : Int :=
  if b.negative then -b.floorAbs else b.floorAbs

end Binary

end Mockup
