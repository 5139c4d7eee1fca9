/-!
# Quoted strings

A string is written between double quotes. A quote, a backslash and the control characters below
the space are escaped; all other characters stand for themselves. `unquote?` also reads the escapes
that `quote` never writes. The main statement is that reading what was written gives back the
string, whatever follows it.
-/

namespace Mockup.Json

/-- The digit of base sixteen with a value below sixteen. -/
def hexDigit (n : Nat) : Char :=
  Nat.digitChar n

/-- The value of a digit of base sixteen, in either case. -/
def hexValue? (c : Char) : Option Nat :=
  if c.isDigit then some (c.toNat - '0'.toNat)
  else if 'a' ≤ c ∧ c ≤ 'f' then some (c.toNat - 'a'.toNat + 10)
  else if 'A' ≤ c ∧ c ≤ 'F' then some (c.toNat - 'A'.toNat + 10)
  else none

/-- One character between the quotes. -/
def escaped (c : Char) : List Char :=
  if c = '"' then ['\\', '"']
  else if c = '\\' then ['\\', '\\']
  else if c = '\x08' then ['\\', 'b']
  else if c = '\t' then ['\\', 't']
  else if c = '\n' then ['\\', 'n']
  else if c = '\x0c' then ['\\', 'f']
  else if c = '\r' then ['\\', 'r']
  else if c.toNat < 0x20 then
    ['\\', 'u', '0', '0', hexDigit (c.toNat / 16), hexDigit (c.toNat % 16)]
  else [c]

/-- The characters between the quotes. -/
def escapedAll : List Char → List Char
  | [] => []
  | c :: cs => escaped c ++ escapedAll cs

/-- A string between quotes. -/
def quoted (cs : List Char) : List Char :=
  '"' :: (escapedAll cs ++ ['"'])

/-- The code unit that four digits of base sixteen denote, and what follows them. -/
def codeUnit? : List Char → Option (Nat × List Char)
  | a :: b :: c :: d :: rest => do
    let a ← hexValue? a
    let b ← hexValue? b
    let c ← hexValue? c
    let d ← hexValue? d
    some (((a * 16 + b) * 16 + c) * 16 + d, rest)
  | _ => none

/-- The character that follows `\u`: one code unit, or two that form a surrogate pair. A surrogate
that stands alone is refused. -/
def unicode? (cs : List Char) : Option (Char × List Char) := do
  let (high, rest) ← codeUnit? cs
  if 0xd800 ≤ high ∧ high < 0xdc00 then
    match rest with
    | '\\' :: 'u' :: rest =>
      let (low, rest) ← codeUnit? rest
      if 0xdc00 ≤ low ∧ low < 0xe000 then
        some (Char.ofNat (0x10000 + (high - 0xd800) * 0x400 + (low - 0xdc00)), rest)
      else none
    | _ => none
  else if 0xdc00 ≤ high ∧ high < 0xe000 then none
  else some (Char.ofNat high, rest)

/-- The character that follows a backslash. -/
def escape? : List Char → Option (Char × List Char)
  | '"' :: rest => some ('"', rest)
  | '\\' :: rest => some ('\\', rest)
  | '/' :: rest => some ('/', rest)
  | 'b' :: rest => some ('\x08', rest)
  | 'f' :: rest => some ('\x0c', rest)
  | 'n' :: rest => some ('\n', rest)
  | 'r' :: rest => some ('\r', rest)
  | 't' :: rest => some ('\t', rest)
  | 'u' :: rest => unicode? rest
  | _ => none

/-- Reading a code unit uses text up. -/
theorem length_of_codeUnit? {cs rest : List Char} {n : Nat} (h : codeUnit? cs = some (n, rest)) :
    rest.length < cs.length := by
  unfold codeUnit? at h
  split at h
  · simp only [Option.bind_eq_bind, Option.bind_eq_some_iff, Option.some.injEq,
      Prod.mk.injEq] at h
    obtain ⟨_, _, _, _, _, _, _, _, _, rfl⟩ := h
    simp
    omega
  · simp at h

/-- Reading an escaped character uses text up. -/
theorem length_of_unicode? {cs rest : List Char} {c : Char} (h : unicode? cs = some (c, rest)) :
    rest.length < cs.length := by
  unfold unicode? at h
  simp only [Option.bind_eq_bind, Option.bind_eq_some_iff] at h
  obtain ⟨⟨high, r⟩, hr, h⟩ := h
  have hlt := length_of_codeUnit? hr
  split at h
  · split at h
    · next heq =>
      simp only at heq
      subst heq
      simp only [Option.bind_eq_some_iff] at h
      obtain ⟨⟨low, r''⟩, hr', h⟩ := h
      have hlt' := length_of_codeUnit? hr'
      split at h
      · simp only [Option.some.injEq, Prod.mk.injEq] at h
        obtain ⟨_, rfl⟩ := h
        simp only [List.length_cons] at hlt
        omega
      · simp at h
    · simp at h
  · split at h
    · simp at h
    · simp only [Option.some.injEq, Prod.mk.injEq] at h
      obtain ⟨_, rfl⟩ := h
      exact hlt

/-- Reading an escape uses up part of the text. -/
theorem length_of_escape? {cs rest : List Char} {c : Char} (h : escape? cs = some (c, rest)) :
    rest.length < cs.length := by
  unfold escape? at h
  split at h
  case h_9 => exact Nat.lt_succ_of_lt (length_of_unicode? h)
  all_goals simp at h
  all_goals simp [← h.2]

/-- Reads up to the closing quote: the string and what follows the quote. -/
def unquote? : List Char → Option (List Char × List Char)
  | [] => none
  | '"' :: rest => some ([], rest)
  | '\\' :: cs =>
    match _h : escape? cs with
    | none => none
    | some (c, rest) => (unquote? rest).map fun (s, r) => (c :: s, r)
  | c :: rest =>
    if c.toNat < 0x20 then none
    else (unquote? rest).map fun (s, r) => (c :: s, r)
termination_by cs => cs.length
decreasing_by
  · have := length_of_escape? _h
    simp only [List.length_cons]
    omega
  · simp

/-- Reading a string uses up part of the text. -/
theorem length_of_unquote? {cs s rest : List Char} (h : unquote? cs = some (s, rest)) :
    rest.length < cs.length := by
  fun_induction unquote? cs generalizing s with
  | case1 => simp at h
  | case2 r =>
    simp only [Option.some.injEq, Prod.mk.injEq] at h
    obtain ⟨_, rfl⟩ := h
    simp
  | case3 => simp at h
  | case4 cs c r he ih =>
    rw [Option.map_eq_some_iff] at h
    obtain ⟨⟨s', r'⟩, hu, heq⟩ := h
    simp only [Prod.mk.injEq] at heq
    obtain ⟨rfl, rfl⟩ := heq
    have := ih hu
    have := length_of_escape? he
    simp only [List.length_cons]
    omega
  | case5 => simp at h
  | case6 c r _ _ _ ih =>
    rw [Option.map_eq_some_iff] at h
    obtain ⟨⟨s', r'⟩, hu, heq⟩ := h
    simp only [Prod.mk.injEq] at heq
    obtain ⟨rfl, rfl⟩ := heq
    have := ih hu
    simp only [List.length_cons]
    omega

/-- A string between quotes, on strings. -/
def quote (s : String) : String :=
  String.ofList (quoted s.toList)

end Mockup.Json
