import Mockup.Decimal.Binary

/-!
# Shortest decimals

`Decimal.shortest` is the decimal number with the fewest digits among those that read back as a
given binary number, and of these the nearest one. The numbers that read back form an interval
around the value; for one digit, two digits and so on the two neighbours of the value on that
decimal grid are tested, and the first grid with a neighbour in the interval decides. All
comparisons are made on integers over a common denominator.
-/

namespace Mockup

/-- The number `digits · 10 ^ exponent`. -/
structure Decimal where
  /-- The integer that is scaled. -/
  digits : Nat
  /-- The power of ten that scales it. -/
  exponent : Int
  deriving Repr, DecidableEq

/-- Which of two grid points at the same distance is chosen. -/
inductive Tie where
  /-- The even one. -/
  | even
  /-- The larger one. -/
  | up
  deriving Repr, DecidableEq

namespace Decimal

/-- The numbers that round to one binary number, as integers over a common denominator. -/
structure Interval where
  /-- The binary number itself. -/
  value : Nat
  /-- The lower end, half a step below. -/
  lower : Nat
  /-- The upper end, half a step above. -/
  upper : Nat
  /-- The common denominator. -/
  denominator : Nat
  /-- Whether the two ends round to the number too. -/
  closed : Bool

/-- The interval of a positive binary number. Below a power of two the steps are half as wide, and
the ends belong to it when the mantissa is even. -/
def Interval.around (b : Binary) : Interval :=
  -- With four units to a step, half a step and a quarter of one are whole numbers of units.
  let scale := Nat.pow 2 (b.exponent - 2).toNat
  let narrow := b.mantissa == Binary.hidden && b.exponent > Binary.minExponent
  { value := 4 * b.mantissa * scale
    lower := (4 * b.mantissa - if narrow then 1 else 2) * scale
    upper := (4 * b.mantissa + 2) * scale
    denominator := Nat.pow 2 (2 - b.exponent).toNat
    closed := b.mantissa % 2 == 0 }

/-- The multiple of `10 ^ k` that lies in the interval, the nearer one if two do. -/
def Interval.onGrid? (i : Interval) (tie : Tie) (k : Int) : Option Nat :=
  let step := i.denominator * Nat.pow 10 k.toNat
  let scale := Nat.pow 10 (-k).toNat
  let below := i.value * scale / step
  let inside (n : Nat) : Bool :=
    if i.closed then i.lower * scale ≤ n * step && n * step ≤ i.upper * scale
    else i.lower * scale < n * step && n * step < i.upper * scale
  let rest := i.value * scale % step
  let nearer : Nat :=
    if 2 * rest < step then below
    else if step < 2 * rest then below + 1
    else match tie with
      | .even => if below % 2 = 0 then below else below + 1
      | .up => below + 1
  if inside below && inside (below + 1) then some nearer
  else if inside below then some below
  else if inside (below + 1) then some (below + 1)
  else none

/-- The number of decimal digits of an integer. -/
def digitCount (n : Nat) : Nat :=
  (Nat.toDigits 10 n).length

/-- The exponent of the largest power of ten that is not above `numerator / denominator`. -/
def magnitude (numerator denominator : Nat) : Int :=
  -- The numbers of digits tell the exponent up to one.
  let e : Int := digitCount numerator - digitCount denominator
  if denominator * Nat.pow 10 e.toNat ≤ numerator * Nat.pow 10 (-e).toNat then e else e - 1

/-- The same number without zeros at the end of its digits. -/
def normalized (d : Decimal) : Decimal :=
  if d.digits ≠ 0 ∧ d.digits % 10 = 0 then normalized ⟨d.digits / 10, d.exponent + 1⟩ else d
termination_by d.digits
decreasing_by omega

/-- No shorter decimal than 17 digits is needed for any binary number. -/
def maxDigits : Nat := 17

/-- The shortest decimal that reads back as the absolute value of a binary number. -/
def shortest (tie : Tie) (b : Binary) : Decimal :=
  if b.mantissa = 0 then ⟨0, 0⟩
  else
    let i := Interval.around b
    let top := magnitude i.value i.denominator
    let found := (List.range maxDigits).findSome? fun (n : Nat) =>
      (i.onGrid? tie (top - n)).map fun digits => (⟨digits, top - n⟩ : Decimal)
    (found.getD ⟨b.mantissa, 0⟩).normalized

/-- The exponent of the leading digit. -/
def leading (d : Decimal) : Int :=
  (digitCount d.digits : Int) - 1 + d.exponent

/-- `n` zeros. -/
def zeros (n : Nat) : String :=
  String.ofList (List.replicate n '0')

/-- The number without an exponent; an integer has no decimal point. -/
def positional (d : Decimal) : String :=
  let ds := Nat.toDigits 10 d.digits
  let places := (-d.exponent).toNat
  if places = 0 then String.ofList ds ++ zeros d.exponent.toNat
  else if places < ds.length then
    String.ofList (ds.take (ds.length - places)) ++ "." ++
      String.ofList (ds.drop (ds.length - places))
  else "0." ++ zeros (places - ds.length) ++ String.ofList ds

/-- The number with one digit before the point and a signed exponent. -/
def scientific (d : Decimal) : String :=
  let sign := if d.leading < 0 then "-" else "+"
  let exponent := "e" ++ sign ++ toString d.leading.natAbs
  match Nat.toDigits 10 d.digits with
  | [] => "0" ++ exponent
  | [c] => String.singleton c ++ exponent
  | c :: cs => String.singleton c ++ "." ++ String.ofList cs ++ exponent

end Decimal

end Mockup
