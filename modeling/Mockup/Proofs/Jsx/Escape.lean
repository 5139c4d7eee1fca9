import Mockup.Jsx.Escape
import Mockup.Proofs.Text.Replace

/-!
# Escaped texts

The characters with a meaning of their own between tags are replaced one after the other, and the
references that take their places begin with ampersands. Since the ampersand is replaced first, no
reference is touched again: each character of the text is written on its own.

* `IsEscaped cs` — nothing opens or closes anything in `cs`, and ampersands only begin references.
* `decoded cs` — the text `cs` with the characters for its references.

## Main results

* `toList_escapeText`: the replacements write each character on its own.
* `isEscaped_escaped`, `decoded_escaped`: what is written is escaped and stands for the text.
* `IsEscaped.escaped_decoded`: an escaped text is what is written for the text that it stands for.
* `escapeText_substitutes`: all of this for the replacements.
-/

namespace Mockup.Jsx

/-! ### References -/

/-- Whether a character stands for itself between tags. -/
def isPlain (c : Char) : Bool :=
  references.all fun r => c != r.1

section References

variable {c : Char} {r : Char × String}

theorem isPlain_iff :
    isPlain c = true ↔ c ≠ '&' ∧ c ≠ '<' ∧ c ≠ '>' ∧ c ≠ '\x7b' ∧ c ≠ '\x7d' := by
  simp [isPlain, references]

theorem ne_of_isPlain (h : isPlain c = true) : ∀ r ∈ references, c ≠ r.1 := by
  simpa [isPlain] using h

/-- A character is plain or has a reference. -/
theorem isPlain_or_exists (c : Char) : isPlain c = true ∨ ∃ r ∈ references, c = r.1 := by
  cases h : isPlain c with
  | true => exact .inl rfl
  | false => exact .inr (by simpa [isPlain] using h)

theorem escapedChar_of_mem (h : r ∈ references) : escapedChar r.1 = r.2.toList := by
  have hall : ∀ r ∈ references, escapedChar r.1 = r.2.toList := by decide
  exact hall r h

theorem escapedChar_of_isPlain (h : isPlain c = true) : escapedChar c = [c] := by
  rw [isPlain_iff] at h
  unfold escapedChar
  split <;> simp_all

/-- A reference is an ampersand and plain characters. -/
theorem exists_eq_cons_of_mem (h : r ∈ references) :
    ∃ name, r.2.toList = '&' :: name ∧ ∀ c ∈ name, isPlain c = true := by
  have hall : ∀ r ∈ references, '&' ∈ r.2.toList.head? ∧ r.2.toList.tail.all isPlain = true := by
    decide
  obtain ⟨hhead, hname⟩ := hall r h
  exact ⟨_, List.eq_cons_of_mem_head? hhead, List.all_eq_true.1 hname⟩

/-- The table of the references puts the reference in the place of a character that has one. -/
theorem substituted_references (c : Char) : Text.substituted references c = escapedChar c := by
  obtain h | ⟨r, hr, rfl⟩ := isPlain_or_exists c
  · rw [Text.substituted_of_notMem (ne_of_isPlain h), escapedChar_of_isPlain h]
  · have hall : ∀ r ∈ references, Text.substituted references r.1 = r.2.toList := by decide
    rw [hall r hr, escapedChar_of_mem hr]

end References

/-- Replacing one character after the other writes each character on its own. -/
theorem toList_escapeText (s : String) : (escapeText s).toList = escaped s.toList := by
  rw [escapeText, Text.toList_foldl_replace (by decide), escaped]
  exact List.flatMap_congr fun c _ => substituted_references c

theorem escaped_append (cs ds : List Char) : escaped (cs ++ ds) = escaped cs ++ escaped ds :=
  List.flatMap_append

theorem escaped_cons (c : Char) (cs : List Char) :
    escaped (c :: cs) = escapedChar c ++ escaped cs :=
  List.flatMap_cons

/-! ### Escaped texts -/

/-- A text in which nothing but references has a meaning of its own between tags. -/
structure IsEscaped (cs : List Char) : Prop where
  /-- No tag and no expression begins or ends. -/
  plain : ∀ c ∈ cs, c ≠ '<' ∧ c ≠ '>' ∧ c ≠ '\x7b' ∧ c ≠ '\x7d'
  /-- Each ampersand begins a reference. -/
  reference : ∀ rest, '&' :: rest <:+ cs → ∃ r ∈ references, r.2.toList <+: '&' :: rest

namespace IsEscaped

variable {cs ds : List Char}

theorem nil : IsEscaped [] where
  plain := List.forall_mem_nil _
  reference rest h := by simp at h

theorem of_suffix (h : IsEscaped cs) (hsuffix : ds <:+ cs) : IsEscaped ds where
  plain c hc := h.plain c (hsuffix.mem hc)
  reference rest hrest := h.reference rest (hrest.trans hsuffix)

/-- A plain character in front of an escaped text. -/
theorem cons (h : IsEscaped cs) {c : Char} (hc : isPlain c = true) : IsEscaped (c :: cs) where
  plain := List.forall_mem_cons.2 ⟨(isPlain_iff.1 hc).2, h.plain⟩
  reference rest hrest := by
    obtain heq | hrest := List.suffix_cons_iff.1 hrest
    · exact absurd (List.cons.inj heq).1.symm (isPlain_iff.1 hc).1
    · exact h.reference rest hrest

/-- Plain characters in front of an escaped text. -/
theorem append (h : IsEscaped cs) {name : List Char} (hname : ∀ c ∈ name, isPlain c = true) :
    IsEscaped (name ++ cs) := by
  induction name with
  | nil => exact h
  | cons c name ih =>
    obtain ⟨hc, hname⟩ := List.forall_mem_cons.1 hname
    exact (ih hname).cons hc

/-- A reference in front of an escaped text. -/
theorem reference_append (h : IsEscaped cs) {r : Char × String} (hr : r ∈ references) :
    IsEscaped (r.2.toList ++ cs) := by
  obtain ⟨name, heq, hname⟩ := exists_eq_cons_of_mem hr
  have hrest : IsEscaped (name ++ cs) := h.append hname
  rw [heq, List.cons_append]
  refine ⟨List.forall_mem_cons.2 ⟨by decide, hrest.plain⟩, fun rest hsuffix => ?_⟩
  obtain hwhole | hsuffix := List.suffix_cons_iff.1 hsuffix
  · rw [hwhole, ← List.cons_append, ← heq]
    exact ⟨r, hr, List.prefix_append _ _⟩
  · exact hrest.reference rest hsuffix

/-- An escaped text is made up of references and plain characters. -/
theorem induction {motive : List Char → Prop} (nil : motive [])
    (reference : ∀ r ∈ references, ∀ cs, motive cs → motive (r.2.toList ++ cs))
    (plain : ∀ c cs, isPlain c = true → motive cs → motive (c :: cs)) (h : IsEscaped cs) :
    motive cs := by
  -- A reference is more than one character long, so the induction is on the length.
  induction hlength : cs.length using Nat.strongRecOn generalizing cs with
  | ind n ih =>
  subst hlength
  cases cs with
  | nil => exact nil
  | cons c cs =>
    by_cases hc : c = '&'
    · subst hc
      obtain ⟨r, hr, rest, heq⟩ := h.reference cs (List.suffix_refl _)
      obtain ⟨name, hname, -⟩ := exists_eq_cons_of_mem hr
      have hlt : rest.length < ('&' :: cs).length := by
        rw [← heq, hname, List.cons_append, List.length_cons, List.length_append]
        omega
      rw [← heq]
      exact reference r hr rest (ih _ hlt (h.of_suffix ⟨_, heq⟩) rfl)
    · have hplain : isPlain c = true := isPlain_iff.2 ⟨hc, h.plain c List.mem_cons_self⟩
      exact plain c cs hplain (ih _ (Nat.lt_succ_self _) (h.of_suffix (List.suffix_cons ..)) rfl)

end IsEscaped

/-- What is written is escaped. -/
theorem isEscaped_escaped (cs : List Char) : IsEscaped (escaped cs) := by
  induction cs with
  | nil => exact .nil
  | cons c cs ih =>
    rw [escaped_cons]
    obtain h | ⟨r, hr, rfl⟩ := isPlain_or_exists c
    · rw [escapedChar_of_isPlain h]
      exact ih.cons h
    · rw [escapedChar_of_mem hr]
      exact ih.reference_append hr

/-! ### Reading references -/

/-- The text that an escaped text stands for. -/
def decoded : List Char → List Char
  | '&' :: 'a' :: 'm' :: 'p' :: ';' :: cs => '&' :: decoded cs
  | '&' :: 'l' :: 't' :: ';' :: cs => '<' :: decoded cs
  | '&' :: 'g' :: 't' :: ';' :: cs => '>' :: decoded cs
  | '&' :: '#' :: '1' :: '2' :: '3' :: ';' :: cs => '\x7b' :: decoded cs
  | '&' :: '#' :: '1' :: '2' :: '5' :: ';' :: cs => '\x7d' :: decoded cs
  | c :: cs => c :: decoded cs
  | [] => []

theorem decoded_reference {r : Char × String} (hr : r ∈ references) (cs : List Char) :
    decoded (r.2.toList ++ cs) = r.1 :: decoded cs := by
  simp only [references, List.mem_cons, List.not_mem_nil, or_false] at hr
  obtain rfl | rfl | rfl | rfl | rfl := hr <;> rfl

theorem decoded_cons {c : Char} (hc : isPlain c = true) (cs : List Char) :
    decoded (c :: cs) = c :: decoded cs := by
  have hc := (isPlain_iff.1 hc).1
  conv_lhs => unfold decoded
  split <;> simp_all

/-- What is written for a text stands for the text. -/
theorem decoded_escaped (cs : List Char) : decoded (escaped cs) = cs := by
  induction cs with
  | nil => rfl
  | cons c cs ih =>
    rw [escaped_cons]
    obtain h | ⟨r, hr, rfl⟩ := isPlain_or_exists c
    · rw [escapedChar_of_isPlain h, List.singleton_append, decoded_cons h, ih]
    · rw [escapedChar_of_mem hr, decoded_reference hr, ih]

/-- An escaped text is what is written for the text that it stands for. -/
theorem IsEscaped.escaped_decoded {cs : List Char} (h : IsEscaped cs) :
    escaped (decoded cs) = cs := by
  refine IsEscaped.induction (motive := fun cs => escaped (decoded cs) = cs) rfl ?_ ?_ h
  · intro r hr cs ih
    rw [decoded_reference hr, escaped_cons, escapedChar_of_mem hr, ih]
  · intro c cs hc ih
    rw [decoded_cons hc, escaped_cons, escapedChar_of_isPlain hc, ih, List.singleton_append]

/-! ### The replacements -/

theorem isEscaped_escapeText (s : String) : IsEscaped (escapeText s).toList := by
  rw [toList_escapeText]
  exact isEscaped_escaped s.toList

/-- Replacing one character after the other puts, all at once, a reference in the place of each
character that has one. What is written is escaped, stands for the text and is written part by part,
and each escaped text is written for some text. -/
theorem escapeText_substitutes (s t : String) :
    (escapeText s).toList = s.toList.flatMap escapedChar ∧
      IsEscaped (escapeText s).toList ∧
      decoded (escapeText s).toList = s.toList ∧
      escapeText (s ++ t) = escapeText s ++ escapeText t ∧
      (IsEscaped t.toList ↔ ∃ u, escapeText u = t) := by
  refine ⟨toList_escapeText s, isEscaped_escapeText s, ?_, ?_, fun h => ?_, ?_⟩
  · rw [toList_escapeText, decoded_escaped]
  · apply String.toList_injective
    simp only [toList_escapeText, String.toList_append, escaped_append]
  · refine ⟨String.ofList (decoded t.toList), String.toList_injective ?_⟩
    rw [toList_escapeText, String.toList_ofList, h.escaped_decoded]
  · rintro ⟨u, rfl⟩
    exact isEscaped_escapeText u

end Mockup.Jsx
