import Mockup.Json.Printer

/-!
# The text of a number

A number is written with digits, a few letters, signs and a point, whatever its size and whether it
is an integer or not.

## Main results

* `Number.isNumeric_text`: nothing else occurs in the text of a number.
-/

namespace Mockup

namespace Json

/-- A character of the text of a number. -/
def isNumberChar (c : Char) : Bool :=
  c.isAlphanum || c == '-' || c == '+' || c == '.'

/-- A text with no characters but those of numbers. -/
def IsNumeric (s : String) : Prop :=
  ∀ c ∈ s.toList, isNumberChar c = true

instance (s : String) : Decidable (IsNumeric s) :=
  decidable_of_iff (s.toList.all isNumberChar = true) List.all_eq_true

theorem IsNumeric.append {s t : String} (hs : IsNumeric s) (ht : IsNumeric t) :
    IsNumeric (s ++ t) := by
  intro c hc
  rw [String.toList_append, List.mem_append] at hc
  exact hc.elim (hs c) (ht c)

theorem IsNumeric.ofList {cs : List Char} (h : ∀ c ∈ cs, isNumberChar c = true) :
    IsNumeric (String.ofList cs) := by
  intro c hc
  rw [String.toList_ofList] at hc
  exact h c hc

/-- Digits are characters of numbers. -/
theorem isNumberChar_of_mem_toDigits {n : Nat} {c : Char} (h : c ∈ Nat.toDigits 10 n) :
    isNumberChar c = true := by
  have hdigit : c.isDigit = true := Nat.isDigit_of_mem_toDigits (by decide) (by decide) h
  simp [isNumberChar, Char.isAlphanum, hdigit]

theorem isNumeric_repr (n : Nat) : IsNumeric n.repr := by
  intro c hc
  rw [Nat.toList_repr] at hc
  exact isNumberChar_of_mem_toDigits hc

end Json

open Json (IsNumeric isNumberChar isNumberChar_of_mem_toDigits isNumeric_repr)

namespace Decimal

theorem isNumeric_zeros (n : Nat) : IsNumeric (zeros n) := by
  refine .ofList fun c hc => ?_
  obtain rfl := List.eq_of_mem_replicate hc
  decide

/-- A number without an exponent has digits and at most a point. -/
theorem isNumeric_positional (d : Decimal) : IsNumeric d.positional := by
  have point : IsNumeric "." := by decide
  have nought : IsNumeric "0." := by decide
  unfold positional
  simp only
  split
  · have digits : IsNumeric (String.ofList (Nat.toDigits 10 d.digits)) :=
      .ofList fun c => isNumberChar_of_mem_toDigits
    exact digits.append (isNumeric_zeros _)
  split
  · refine ((IsNumeric.ofList fun c hc => ?_).append point).append (.ofList fun c hc => ?_)
    · exact isNumberChar_of_mem_toDigits (List.mem_of_mem_take hc)
    · exact isNumberChar_of_mem_toDigits (List.mem_of_mem_drop hc)
  · exact (nought.append (isNumeric_zeros _)).append
      (.ofList fun c => isNumberChar_of_mem_toDigits)

/-- A number with an exponent has digits, a point, a letter and signs. -/
theorem isNumeric_scientific (d : Decimal) : IsNumeric d.scientific := by
  have point : IsNumeric "." := by decide
  have nought : IsNumeric "0" := by decide
  have exponent :
      IsNumeric ("e" ++ (if d.leading < 0 then "-" else "+") ++ toString d.leading.natAbs) := by
    have letter : IsNumeric "e" := by decide
    have sign : IsNumeric (if d.leading < 0 then "-" else "+") := by split <;> decide
    exact (letter.append sign).append (isNumeric_repr _)
  have digits : ∀ c ∈ Nat.toDigits 10 d.digits, isNumberChar c = true :=
    fun c => isNumberChar_of_mem_toDigits
  unfold scientific
  simp only
  -- The digits are cut into the leading one and the others.
  split
  · exact nought.append exponent
  · next c heq =>
    rw [heq] at digits
    exact (IsNumeric.ofList digits).append exponent
  · next c cs _ heq =>
    rw [heq] at digits
    have leading : IsNumeric (String.singleton c) :=
      .ofList fun b hb => digits b (by simp_all)
    have rest : IsNumeric (String.ofList cs) :=
      .ofList fun b hb => digits b (List.mem_cons_of_mem _ hb)
    exact ((leading.append point).append rest).append exponent

end Decimal

namespace Json

theorem isNumeric_floatText (x : Float) : IsNumeric (floatText x) := by
  unfold floatText
  split
  · decide
  · next b _ =>
    have sign : IsNumeric (if b.negative then "-" else "") := by split <;> decide
    have fraction : IsNumeric ".0" := by decide
    simp only
    split
    · exact sign.append (Decimal.isNumeric_scientific _)
    split
    · exact (sign.append (Decimal.isNumeric_positional _)).append fraction
    · exact sign.append (Decimal.isNumeric_positional _)

/-- The text of a number has digits, letters, signs and points. -/
theorem Number.isNumeric_text (n : Number) : IsNumeric n.text := by
  cases n with
  | float x => exact isNumeric_floatText x
  | integer n =>
    have htext : (Number.integer n).text = n.repr := rfl
    rw [htext, Int.repr_eq_if]
    split
    · exact isNumeric_repr _
    · have sign : IsNumeric "-" := by decide
      exact sign.append (isNumeric_repr _)

end Json

end Mockup
