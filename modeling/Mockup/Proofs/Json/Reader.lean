import Mockup.Json.Printer
import Mockup.Json.Reader
import Mockup.Proofs.Json.Fields
import Mockup.Proofs.Json.Quoted

/-!
# Written values are read back

A value of strings, arrays and objects that is written without blanks is read back, with the fields
of its objects in key order, as long as it nests no deeper than a text may.

* `Leaves x a rest` — the reader's outcome `x` is the result `a`, with `rest` left of the text.
* `j.Textual depth` — the value `j` has no numbers in it and nests at most to `depth`.

## Main results

* `leaves_series`: things that are written with commas between them are read one after the other.
* `leaves_value`: a written value is read, whatever follows it.
* `read?_compact`: a whole text with a written value is read.
-/

namespace Mockup.Json

/-! ### Outcomes -/

section Leaves

variable {α β : Type} {cs ds : List Char}

/-- A reader has a result and leaves a rest of the text. -/
def Leaves (x : Option (α × Rest cs)) (a : α) (rest : List Char) : Prop :=
  x.map (fun y => (y.1, y.2.chars)) = some (a, rest)

theorem leaves_iff {x : Option (α × Rest cs)} {a : α} {rest : List Char} :
    Leaves x a rest ↔ ∃ r : Rest cs, x = some (a, r) ∧ r.chars = rest := by
  constructor
  · intro h
    obtain ⟨⟨b, r⟩, hx, heq⟩ := Option.map_eq_some_iff.1 h
    cases heq
    exact ⟨r, hx, rfl⟩
  · rintro ⟨r, rfl, rfl⟩
    rfl

/-- A result may be turned into another one, and its rest seen from a longer text. -/
theorem Leaves.map {x : Option (α × Rest cs)} {a : α} {rest : List Char} (h : Leaves x a rest)
    (f : α → β) (widen : Rest cs → Rest ds) (hwiden : ∀ r, (widen r).chars = r.chars) :
    Leaves (x.map fun y => (f y.1, widen y.2)) (f a) rest := by
  obtain ⟨r, rfl, rfl⟩ := leaves_iff.1 h
  exact leaves_iff.2 ⟨widen r, rfl, hwiden r⟩

end Leaves

/-! ### Single characters -/

theorem skipGap_cons {c : Char} {cs : List Char} (h : isGap c = false) :
    skipGap (c :: cs) = c :: cs := by
  rw [skipGap, List.dropWhile_cons_of_neg (by simp [h])]

/-- A character that is expected and there is read. -/
theorem expect?_self {c : Char} (h : isGap c = false) (cs : List Char) :
    ∃ r, expect? c (c :: cs) = some r ∧ r.chars = cs := by
  unfold expect?
  split
  · next heq =>
    rw [skipGap_cons h] at heq
    cases heq
  · next d ds heq =>
    rw [skipGap_cons h] at heq
    cases heq
    exact ⟨_, if_pos rfl, rfl⟩

/-- Another character than the expected one is not read. -/
theorem expect?_of_ne {c d : Char} (hd : isGap d = false) (hne : d ≠ c) (cs : List Char) :
    expect? c (d :: cs) = none := by
  unfold expect?
  split
  · rfl
  · next e es heq =>
    rw [skipGap_cons hd] at heq
    cases heq
    exact if_neg hne

/-- A string is read after its opening quote. -/
theorem leaves_string (s : String) (rest : List Char) :
    Leaves (string? (escapedAll s.toList ++ '"' :: rest)) s rest := by
  have hread := unquote?_escapedAll s.toList rest
  rw [leaves_iff, string?]
  split
  · next heq =>
    rw [hread] at heq
    cases heq
  · next cs left heq =>
    rw [hread] at heq
    cases heq
    exact ⟨_, by rw [String.ofList_toList], rfl⟩

/-! ### Sequences -/

/-- What is written with commas between. -/
def joined {β : Type} (write : β → List Char) : List β → List Char
  | [] => []
  | [b] => write b
  | b :: bs => write b ++ ',' :: joined write bs

/-- What is written first stands first. -/
theorem exists_joined_cons {β : Type} (write : β → List Char) (b : β) (bs : List β) :
    ∃ tail, joined write (b :: bs) = write b ++ tail := by
  cases bs with
  | nil => exact ⟨[], (List.append_nil _).symm⟩
  | cons c cs => exact ⟨',' :: joined write (c :: cs), rfl⟩

theorem compactItems_eq (js : List Json) : compactItems js = joined compactChars js := by
  induction js with
  | nil => rfl
  | cons j js ih =>
    cases js with
    | nil => rfl
    | cons k ks => rw [compactItems, joined, ih] <;> exact List.cons_ne_nil _ _

/-- The written form of a field. -/
def fieldChars (f : String × Json) : List Char :=
  quoted f.1.toList ++ ':' :: compactChars f.2

theorem compactFields_eq (fs : List (String × Json)) : compactFields fs = joined fieldChars fs := by
  induction fs with
  | nil => rfl
  | cons f fs ih =>
    obtain ⟨k, j⟩ := f
    cases fs with
    | nil => rfl
    | cons g gs =>
      rw [compactFields, joined, ih]
      · simp [fieldChars]
      · exact List.cons_ne_nil _ _
      · exact List.cons_ne_nil _ _

/-- Things that are read one by one, whatever follows them, are read with commas between them. -/
theorem leaves_series {α β : Type} {close : Char} (hclose : isGap close = false ∧ close ≠ ',')
    {one : (cs : List Char) → Option (α × Rest cs)} {write : β → List Char} {value : β → α}
    (rest : List Char) {bs : List β} (hne : bs ≠ [])
    (hone : ∀ b ∈ bs, ∀ rest, Leaves (one (write b ++ rest)) (value b) rest) :
    Leaves (series? close one (joined write bs ++ close :: rest)) (bs.map value) rest := by
  have hcomma : isGap ',' = false := by decide
  induction bs with
  | nil => exact absurd rfl hne
  | cons b bs ih =>
    obtain ⟨hb, hbs⟩ := List.forall_mem_cons.1 hone
    cases bs with
    | nil =>
      -- The last thing is followed by the closing character.
      obtain ⟨⟨_, _⟩, hr, rfl⟩ := leaves_iff.1 (hb (close :: rest))
      obtain ⟨r', hr', hchars⟩ := expect?_self hclose.1 rest
      rw [joined, leaves_iff, series?, hr]
      simp only [hr']
      exact ⟨_, rfl, hchars⟩
    | cons c cs =>
      -- Any other thing is followed by a comma, after which the reader starts anew.
      obtain ⟨⟨_, _⟩, hr, rfl⟩ :=
        leaves_iff.1 (hb (',' :: (joined write (c :: cs) ++ close :: rest)))
      have hopen := expect?_of_ne hcomma hclose.2.symm (joined write (c :: cs) ++ close :: rest)
      obtain ⟨⟨_, _⟩, hr', rfl⟩ := expect?_self hcomma (joined write (c :: cs) ++ close :: rest)
      obtain ⟨r'', hr'', hchars⟩ := leaves_iff.1 (ih (by simp) hbs)
      rw [joined, List.append_assoc, List.cons_append, leaves_iff, series?, hr]
      · simp only [hopen, hr', hr'']
        exact ⟨_, rfl, hchars⟩
      · exact List.cons_ne_nil _ _

/-! ### Values -/

/-- A value of strings, arrays and objects that nests at most to a depth. -/
inductive Textual : Nat → Json → Prop
  | string {depth : Nat} {s : String} : Textual depth (.string s)
  | array {depth : Nat} {js : List Json} (h : ∀ j ∈ js, Textual depth j) :
    Textual (depth + 1) (.array js)
  | object {depth : Nat} {fs : List (String × Json)} (h : ∀ f ∈ fs, Textual depth f.2) :
    Textual (depth + 1) (.object fs)

/-- A written field is read if its value is. -/
theorem leaves_field {value? : (cs : List Char) → Option (Json × Rest cs)} {f : String × Json}
    {j : Json} (rest : List Char)
    (hvalue : Leaves (value? (compactChars f.2 ++ rest)) j rest) :
    Leaves (field? value? (fieldChars f ++ rest)) (f.1, j) rest := by
  have hquote : isGap '"' = false := by decide
  have hcolon : isGap ':' = false := by decide
  obtain ⟨⟨_, _⟩, hopen, rfl⟩ :=
    expect?_self hquote (escapedAll f.1.toList ++ '"' :: ':' :: (compactChars f.2 ++ rest))
  obtain ⟨⟨_, _⟩, hkey, rfl⟩ :=
    leaves_iff.1 (leaves_string f.1 (':' :: (compactChars f.2 ++ rest)))
  obtain ⟨⟨_, _⟩, hpoint, rfl⟩ := expect?_self hcolon (compactChars f.2 ++ rest)
  obtain ⟨r, hr, hchars⟩ := leaves_iff.1 hvalue
  have hwritten : fieldChars f ++ rest =
      '"' :: (escapedAll f.1.toList ++ '"' :: ':' :: (compactChars f.2 ++ rest)) := by
    simp [fieldChars, quoted]
  rw [hwritten, leaves_iff, field?, hopen]
  simp only [Option.bind_eq_bind, Option.bind_some, hkey, hpoint, hr]
  exact ⟨_, rfl, hchars⟩

/-- A value that begins with a quote is a string. -/
theorem leaves_value_quote {depth : Nat} {cs rest : List Char} {s : String}
    (h : Leaves (string? cs) s rest) : Leaves (value? depth ('"' :: cs)) (.string s) rest := by
  have hgap : skipGap ('"' :: cs) = '"' :: cs := skipGap_cons (by decide)
  unfold value?
  split
  · next heq =>
    rw [hgap] at heq
    cases heq
  · next c ds heq =>
    rw [hgap] at heq
    cases heq
    simp only [if_true]
    exact h.map Json.string (fun r => r.widen (by simp)) fun _ => rfl

/-- A value that begins with a bracket is an array, which may be closed at once. -/
theorem leaves_value_bracket {depth : Nat} {cs rest : List Char} {js : List Json}
    (h : js = [] ∧ (∃ r, expect? ']' cs = some r ∧ r.chars = rest) ∨
      expect? ']' cs = none ∧ Leaves (series? ']' (value? depth) cs) js rest) :
    Leaves (value? (depth + 1) ('[' :: cs)) (.array js) rest := by
  have hgap : skipGap ('[' :: cs) = '[' :: cs := skipGap_cons (by decide)
  have hquote : '[' ≠ '"' := by decide
  unfold value?
  split
  · next heq =>
    rw [hgap] at heq
    cases heq
  · next c ds heq =>
    rw [hgap] at heq
    cases heq
    simp only [hquote, if_false, true_or, if_true]
    rcases h with ⟨rfl, r, hr, rfl⟩ | ⟨hnone, h⟩
    · simp only [hr]
      exact leaves_iff.2 ⟨_, rfl, rfl⟩
    · simp only [hnone]
      exact h.map Json.array (fun r => r.widen (by simp)) fun _ => rfl

/-- A value that begins with a brace is an object, which may be closed at once. -/
theorem leaves_value_brace {depth : Nat} {cs rest : List Char} {fs : List (String × Json)}
    (h : fs = [] ∧ (∃ r, expect? '\x7d' cs = some r ∧ r.chars = rest) ∨
      expect? '\x7d' cs = none ∧ Leaves (series? '\x7d' (field? (value? depth)) cs) fs rest) :
    Leaves (value? (depth + 1) ('\x7b' :: cs)) (.object (Dict.ofList fs).entries) rest := by
  have hgap : skipGap ('\x7b' :: cs) = '\x7b' :: cs := skipGap_cons (by decide)
  have hquote : '\x7b' ≠ '"' := by decide
  have hbracket : '\x7b' ≠ '[' := by decide
  unfold value?
  split
  · next heq =>
    rw [hgap] at heq
    cases heq
  · next c ds heq =>
    rw [hgap] at heq
    cases heq
    simp only [hquote, hbracket, if_false, or_true, if_true]
    rcases h with ⟨rfl, r, hr, rfl⟩ | ⟨hnone, h⟩
    · simp only [hr]
      exact leaves_iff.2 ⟨_, rfl, rfl⟩
    · simp only [hnone]
      exact h.map (fun fs => Json.object (Dict.ofList fs).entries) (fun r => r.widen (by simp))
        fun _ => rfl

/-- The written form of a value begins with a quote or an opening bracket. -/
theorem exists_compactChars_cons {depth : Nat} {j : Json} (h : j.Textual depth) :
    ∃ c cs, compactChars j = c :: cs ∧ isGap c = false ∧ c ≠ ']' := by
  cases h with
  | string => exact ⟨_, _, rfl, by decide, by decide⟩
  | array => exact ⟨_, _, rfl, by decide, by decide⟩
  | object => exact ⟨_, _, rfl, by decide, by decide⟩

/-- A written value is read, whatever follows it. -/
theorem leaves_value {depth : Nat} {j : Json} (h : j.Textual depth) (rest : List Char) :
    Leaves (value? depth (compactChars j ++ rest)) j.sorted rest := by
  induction h generalizing rest with
  | @string _ s =>
    rw [compactChars, quoted, List.cons_append, List.append_assoc]
    exact leaves_value_quote (leaves_string s rest)
  | @array _ js h ih =>
    rw [compactChars, sorted_array, compactItems_eq, List.cons_append, List.append_assoc]
    refine leaves_value_bracket ?_
    -- An empty list has no series; otherwise the first item does not begin like the closing mark.
    cases js with
    | nil => exact .inl ⟨rfl, expect?_self (by decide) rest⟩
    | cons j js =>
      refine .inr ⟨?_, leaves_series ⟨by decide, by decide⟩ rest (by simp) ih⟩
      obtain ⟨tail, htail⟩ := exists_joined_cons compactChars j js
      obtain ⟨c, cs, hc, hgap, hne⟩ := exists_compactChars_cons (h j List.mem_cons_self)
      rw [htail, hc]
      exact expect?_of_ne hgap hne _
  | @object _ fs h ih =>
    rw [compactChars, sorted_object, inOrder, sortedFields_eq_map, compactFields_eq,
      List.cons_append, List.append_assoc]
    refine leaves_value_brace ?_
    cases fs with
    | nil => exact .inl ⟨rfl, expect?_self (by decide) rest⟩
    | cons f fs =>
      refine .inr ⟨?_, leaves_series ⟨by decide, by decide⟩ rest (by simp)
        fun g hg rest => leaves_field rest (ih g hg rest)⟩
      obtain ⟨tail, htail⟩ := exists_joined_cons fieldChars f fs
      rw [htail]
      exact expect?_of_ne (by decide) (by decide) _

/-- A whole text with a written value is read. -/
theorem read?_compact {j : Json} (h : j.Textual maxNesting) : read? j.compact = some j.sorted := by
  have htext : compactChars j ++ [] = j.compact.toList := by
    rw [List.append_nil, compact, String.toList_ofList]
  have hread := leaves_value h []
  rw [htext] at hread
  obtain ⟨r, hr, hchars⟩ := leaves_iff.1 hread
  rw [read?, readNested?, hr]
  simp only [hchars, skipGap, List.dropWhile_nil, List.isEmpty_nil, if_true]

end Mockup.Json
