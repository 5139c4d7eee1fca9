import Mockup.Json.Quoted

/-!
# Reading quoted strings

What is written between quotes is read back, whatever follows it, and nothing that is written
between the quotes ends a line or the string.

## Main results

* `unquote?_escapedAll`: reading a written string gives the string and what follows it.
* `escaped_cases`: a character is written as an escape or as itself.
-/

namespace Mockup.Json

/-- The digits of base sixteen have the values that they are written for. -/
theorem hexValue?_hexDigit : ∀ n, n < 16 → hexValue? (hexDigit n) = some n := by
  decide

/-- A digit of base sixteen is below sixteen. -/
theorem lt_of_hexValue? {c : Char} {n : Nat} (h : hexValue? c = some n) : n < 16 := by
  have hzero : '0'.toNat = 48 := rfl
  have hnine : '9'.toNat = 57 := rfl
  have hlower : 'a'.toNat = 97 := rfl
  have hlowerLast : 'f'.toNat = 102 := rfl
  have hupper : 'A'.toNat = 65 := rfl
  have hupperLast : 'F'.toNat = 70 := rfl
  unfold hexValue? at h
  simp only [Char.le_def, UInt32.le_iff_toNat_le, Char.toNat_val, Char.isDigit, ge_iff_le,
    Bool.and_eq_true, decide_eq_true_eq] at h
  split at h
  · cases h; omega
  split at h
  · cases h; omega
  split at h
  · cases h; omega
  · cases h

/-- A digit of base sixteen is none of the characters that matter in a string. -/
theorem hexDigit_plain : ∀ n, n < 16 →
    hexDigit n ≠ '"' ∧ hexDigit n ≠ '\\' ∧ ¬(hexDigit n).toNat < 0x20 := by
  decide

/-- The shapes of a written character: a backslash with one character, an escaped code unit, or the
character itself, which then has no meaning of its own. -/
theorem escaped_cases (c : Char) :
    (∃ d, escaped c = ['\\', d] ∧ ∀ rest, escape? (d :: rest) = some (c, rest)) ∨
      (c.toNat < 0x20 ∧ escaped c =
        ['\\', 'u', '0', '0', hexDigit (c.toNat / 16), hexDigit (c.toNat % 16)]) ∨
      (escaped c = [c] ∧ c ≠ '"' ∧ c ≠ '\\' ∧ ¬c.toNat < 0x20) := by
  unfold escaped
  split
  · subst c; exact .inl ⟨_, rfl, fun _ => rfl⟩
  split
  · subst c; exact .inl ⟨_, rfl, fun _ => rfl⟩
  split
  · subst c; exact .inl ⟨_, rfl, fun _ => rfl⟩
  split
  · subst c; exact .inl ⟨_, rfl, fun _ => rfl⟩
  split
  · subst c; exact .inl ⟨_, rfl, fun _ => rfl⟩
  split
  · subst c; exact .inl ⟨_, rfl, fun _ => rfl⟩
  split
  · subst c; exact .inl ⟨_, rfl, fun _ => rfl⟩
  split
  · exact .inr (.inl ⟨‹_›, rfl⟩)
  · exact .inr (.inr ⟨rfl, ‹_›, ‹_›, ‹_›⟩)

/-- An escaped code unit below the space reads as the character with that number. -/
theorem escape?_codeUnit {c : Char} (h : c.toNat < 0x20) (rest : List Char) :
    escape? ('u' :: '0' :: '0' :: hexDigit (c.toNat / 16) :: hexDigit (c.toNat % 16) :: rest) =
      some (c, rest) := by
  have hhigh : hexValue? (hexDigit (c.toNat / 16)) = some (c.toNat / 16) :=
    hexValue?_hexDigit _ (by omega)
  have hlow : hexValue? (hexDigit (c.toNat % 16)) = some (c.toNat % 16) :=
    hexValue?_hexDigit _ (by omega)
  have hzero : hexValue? '0' = some 0 := rfl
  have hunit :
      codeUnit? ('0' :: '0' :: hexDigit (c.toNat / 16) :: hexDigit (c.toNat % 16) :: rest) =
      some (c.toNat, rest) := by
    simp only [codeUnit?, hzero, hhigh, hlow, Option.bind_eq_bind, Option.bind_some]
    congr 2
    omega
  have hsmall : ¬(0xd800 ≤ c.toNat ∧ c.toNat < 0xdc00) := by omega
  have hlone : ¬(0xdc00 ≤ c.toNat ∧ c.toNat < 0xe000) := by omega
  simp only [escape?, unicode?, hunit, Option.bind_eq_bind, Option.bind_some, if_neg hsmall,
    if_neg hlone, Char.ofNat_toNat]

/-- An escape stands for the character that it reads as. -/
theorem unquote?_escape {c : Char} {cs rest : List Char} (h : escape? cs = some (c, rest)) :
    unquote? ('\\' :: cs) = (unquote? rest).map fun (s, r) => (c :: s, r) := by
  rw [unquote?]
  split
  · simp_all
  · next heq =>
    rw [h] at heq
    cases heq
    rfl

/-- A character without a meaning of its own stands for itself. -/
theorem unquote?_self {c : Char} {rest : List Char} (hquote : c ≠ '"') (hback : c ≠ '\\')
    (hlow : ¬c.toNat < 0x20) :
    unquote? (c :: rest) = (unquote? rest).map fun (s, r) => (c :: s, r) := by
  rw [unquote?.eq_4 _ _ (by simpa using hquote) (by simpa using hback), if_neg hlow]

/-- A written character reads as that character. -/
theorem unquote?_escaped (c : Char) (rest : List Char) :
    unquote? (escaped c ++ rest) = (unquote? rest).map fun (s, r) => (c :: s, r) := by
  rcases escaped_cases c with ⟨d, h, hd⟩ | ⟨hlow, h⟩ | ⟨h, hquote, hback, hlow⟩
  · rw [h]
    exact unquote?_escape (hd rest)
  · rw [h]
    exact unquote?_escape (escape?_codeUnit hlow rest)
  · rw [h]
    exact unquote?_self hquote hback hlow

/-- Reading a written string up to its closing quote gives the string and what follows it. -/
theorem unquote?_escapedAll (cs rest : List Char) :
    unquote? (escapedAll cs ++ '"' :: rest) = some (cs, rest) := by
  induction cs with
  | nil => simp [escapedAll, unquote?]
  | cons c cs ih =>
    rw [escapedAll, List.append_assoc, unquote?_escaped, ih]
    rfl

end Mockup.Json
