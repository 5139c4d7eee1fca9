import Mockup.Proofs.Text.Words
import Mockup.Tailwind.ClassList

/-!
# Characters of class lists

The tokens of a class list that was written in a text are words of that text. The text of a list has
the characters of its tokens and the spaces between them, so it is blank only if there are no
tokens.

## Main results

* `ClassList.mem_toList_text`: the characters of the text of a list.
* `ClassList.isAllBlank_intercalate`: tokens make a blank text only if there are none.
-/

namespace Mockup.Tailwind

namespace ClassList

/-- The tokens of a written list are the words of the text. -/
@[simp]
theorem mem_parse {value t : String} : t ∈ (parse value).tokens ↔ t ∈ Text.words value := by
  simp [parse, ofTokens, empty]

/-- With further classes a list holds their words too. -/
@[simp]
theorem mem_add {l : ClassList} {classes t : String} :
    t ∈ (l.add classes).tokens ↔ t ∈ l.tokens ∨ t ∈ Text.words classes := by
  rw [add, mem_pushAll]

/-- The characters of each token stand among them. -/
theorem mem_intercalate_of_mem {tokens : List String} {c : Char} {t : String} (ht : t ∈ tokens)
    (hc : c ∈ t.toList) : c ∈ (" ".intercalate tokens).toList := by
  induction tokens with
  | nil => simp at ht
  | cons u us ih =>
    by_cases hus : us = []
    · subst hus
      obtain rfl := List.mem_singleton.1 ht
      rwa [String.intercalate_singleton]
    · rw [String.intercalate_cons_of_ne_nil hus, String.toList_append, List.mem_append,
        String.toList_append, List.mem_append]
      rcases List.mem_cons.1 ht with rfl | ht
      · exact .inl (.inl hc)
      · exact .inr (ih ht)

/-- The characters of the text of a list are those of its tokens and, between two, a space. -/
theorem mem_toList_text {l : ClassList} {c : Char} (h : c ∈ l.text.toList) :
    c = ' ' ∨ ∃ t ∈ l.tokens, c ∈ t.toList :=
  (Text.mem_intercalate h).imp_left List.mem_singleton.1

/-- The characters of each token stand in the text of the list. -/
theorem mem_text_of_mem {l : ClassList} {c : Char} {t : String} (ht : t ∈ l.tokens)
    (hc : c ∈ t.toList) : c ∈ l.text.toList :=
  mem_intercalate_of_mem ht hc

/-! ### Blank texts -/

/-- A token that is not blank keeps the text of several tokens from being blank. -/
theorem isAllBlank_intercalate_of_mem {tokens : List String} {t : String} (ht : t ∈ tokens)
    (hblank : Text.isAllBlank t = false) : Text.isAllBlank (" ".intercalate tokens) = false := by
  obtain ⟨c, hc, hblank⟩ := List.all_eq_false.1 hblank
  exact List.all_eq_false.2 ⟨c, mem_intercalate_of_mem ht hc, hblank⟩

/-- Tokens that are not blank make a blank text only if there are none. -/
theorem isAllBlank_intercalate {tokens : List String}
    (h : ∀ t ∈ tokens, Text.isAllBlank t = false) :
    Text.isAllBlank (" ".intercalate tokens) = tokens.isEmpty := by
  cases tokens with
  | nil => rfl
  | cons t ts => exact isAllBlank_intercalate_of_mem List.mem_cons_self (h t List.mem_cons_self)

/-- A word is not blank. -/
theorem isAllBlank_of_mem_words {value t : String} (h : t ∈ Text.words value) :
    Text.isAllBlank t = false := by
  obtain ⟨w, hw, rfl⟩ := List.mem_map.1 h
  obtain ⟨c, cs, rfl⟩ := List.exists_cons_of_ne_nil (Text.ne_nil_of_mem_wordsOf hw)
  have hblank := Text.not_isBlank_of_mem_wordsOf hw c List.mem_cons_self
  rw [Text.isAllBlank, String.toList_ofList, List.all_cons, hblank, Bool.false_and]

end ClassList

end Mockup.Tailwind
