import Mockup.Jsx.Name
import Mockup.Jsx.Scan
import Mockup.Proofs.Text.Words

/-!
# Characters of names

The name of a component is a capital followed by letters and digits, whatever text it is made from,
and such a name stays as it is. The names of attributes have only characters that a scan reads as
parts of attribute names.

## Main results

* `isPascalCase_componentName`, `componentName_eq_self_iff`: what a name is made into, and which
  texts are not changed.
* `isWordChar_of_mem_componentName`: a component name is one word of a script.
* `isAttributeChar_of_isAttributeName`: an attribute name is read as one name.
-/

namespace Mockup

namespace Text

/-- The words of a text are not empty, and have letters and digits only. -/
theorem ne_nil_and_isAlphanum_of_mem_nameWords {cs w : List Char} (h : w ∈ nameWords cs) :
    w ≠ [] ∧ ∀ c ∈ w, c.isAlphanum = true := by
  obtain ⟨hpiece, hne⟩ := List.mem_filter.1 h
  refine ⟨by simpa using hne, fun c hc => ?_⟩
  simpa using not_sep_of_mem_pieces hpiece c hc

theorem isAlphanum_of_mem_capitalized {w : List Char} (h : ∀ c ∈ w, c.isAlphanum = true) :
    ∀ c ∈ capitalized w, c.isAlphanum = true := by
  cases w with
  | nil => exact List.forall_mem_nil _
  | cons d ds =>
    rw [List.forall_mem_cons] at h
    exact List.forall_mem_cons.2 ⟨isAlphanum_toUpper h.1, h.2⟩

/-- The words of a name joined with capitals have letters and digits only. -/
theorem isAlphanum_of_mem_pascalCase {cs : List Char} :
    ∀ c ∈ pascalCase cs, c.isAlphanum = true := by
  intro c hc
  obtain ⟨w, hw, hc⟩ := List.mem_flatten.1 hc
  obtain ⟨v, hv, rfl⟩ := List.mem_map.1 hw
  exact isAlphanum_of_mem_capitalized (ne_nil_and_isAlphanum_of_mem_nameWords hv).2 c hc

/-- So do the words in lower case, of which all but the first are capitalized. -/
theorem isAlphanum_of_mem_camelCase {cs : List Char} :
    ∀ c ∈ camelCase cs, c.isAlphanum = true := by
  have hlower : ∀ w ∈ (nameWords cs).map (·.map Char.toLower), ∀ c ∈ w, c.isAlphanum = true := by
    intro w hw c hc
    obtain ⟨v, hv, rfl⟩ := List.mem_map.1 hw
    obtain ⟨d, hd, rfl⟩ := List.mem_map.1 hc
    exact isAlphanum_toLower ((ne_nil_and_isAlphanum_of_mem_nameWords hv).2 d hd)
  unfold camelCase
  split
  · exact List.forall_mem_nil _
  · next w ws hwords =>
    rw [hwords, List.forall_mem_cons] at hlower
    refine List.forall_mem_append.2 ⟨hlower.1, fun c hc => ?_⟩
    obtain ⟨v, hv, hc⟩ := List.mem_flatten.1 hc
    obtain ⟨u, hu, rfl⟩ := List.mem_map.1 hv
    exact isAlphanum_of_mem_capitalized (hlower.2 u hu) c hc

/-- A letter as a capital is a capital, and a digit stays a digit. -/
theorem isUpper_or_isDigit_toUpper {c : Char} (h : c.isAlphanum = true) :
    c.toUpper.isUpper = true ∨ c.toUpper.isDigit = true :=
  of_forall_ascii
    (p := fun c => c.isAlphanum = true → c.toUpper.isUpper = true ∨ c.toUpper.isDigit = true)
    (by decide) (toNat_lt_of_isAlphanum h) h

/-- Words joined with capitals begin with a capital or a digit. -/
theorem isUpper_or_isDigit_of_pascalCase {cs ds : List Char} {c : Char}
    (h : pascalCase cs = c :: ds) : c.isUpper = true ∨ c.isDigit = true := by
  rw [pascalCase] at h
  cases hwords : nameWords cs with
  | nil => simp [hwords] at h
  | cons w ws =>
    obtain ⟨hne, halnum⟩ := ne_nil_and_isAlphanum_of_mem_nameWords (hwords ▸ List.mem_cons_self)
    obtain ⟨d, w, rfl⟩ := List.exists_cons_of_ne_nil hne
    rw [hwords, List.map_cons, List.flatten_cons, capitalized, List.cons_append] at h
    obtain ⟨rfl, -⟩ := List.cons.inj h
    exact isUpper_or_isDigit_toUpper (halnum d List.mem_cons_self)

/-- The name of a component is a capital followed by letters and digits. -/
theorem isPascalCase_iff {s : String} :
    isPascalCase s = true ↔
      ∃ c cs, s.toList = c :: cs ∧ c.isUpper = true ∧ ∀ d ∈ cs, d.isAlphanum = true := by
  unfold isPascalCase
  cases s.toList with
  | nil => simp
  | cons c cs =>
    simp only [Bool.and_eq_true, List.all_eq_true, List.cons.injEq]
    constructor
    · rintro ⟨hc, hcs⟩
      exact ⟨c, cs, ⟨rfl, rfl⟩, hc, hcs⟩
    · rintro ⟨_, _, ⟨rfl, rfl⟩, h⟩
      exact h

theorem isAlphanum_of_isPascalCase {s : String} (h : isPascalCase s = true) :
    ∀ c ∈ s.toList, c.isAlphanum = true := by
  obtain ⟨c, cs, hs, hc, hcs⟩ := isPascalCase_iff.1 h
  rw [hs]
  exact List.forall_mem_cons.2 ⟨isAlphanum_of_isUpper hc, hcs⟩

/-- There are no blanks around the name of a component. -/
theorem trim_of_isPascalCase {s : String} (h : isPascalCase s = true) : trim s = s := by
  rw [trim, trimmed_eq_self fun c hc => isBlank_of_isAlphanum (isAlphanum_of_isPascalCase h c hc),
    String.ofList_toList]

end Text

namespace Jsx

/-! ### Names of components -/

/-- Whatever text it was made from, the name of a component is one. -/
theorem isPascalCase_componentName (requested : String) :
    Text.isPascalCase (componentName requested) = true := by
  unfold componentName
  simp only
  split
  · next hpascal => exact hpascal
  · split
    · rfl
    · next c cs heq =>
      have halnum : ∀ d ∈ c :: cs, d.isAlphanum = true := heq ▸ Text.isAlphanum_of_mem_pascalCase
      split
      · -- A digit in front is no capital, so a word with one is put before it.
        have hword : ∀ d ∈ "omponent".toList, d.isAlphanum = true := List.all_eq_true.1 rfl
        refine Text.isPascalCase_iff.2 ⟨'C', "omponent".toList ++ c :: cs, ?_, rfl,
          List.forall_mem_append.2 ⟨hword, halnum⟩⟩
        rw [String.toList_append, String.toList_ofList (l := c :: cs)]
        rfl
      · next hdigit =>
        have hupper := (Text.isUpper_or_isDigit_of_pascalCase heq).resolve_right hdigit
        exact Text.isPascalCase_iff.2 ⟨c, cs, String.toList_ofList, hupper,
          (List.forall_mem_cons.1 halnum).2⟩

/-- The name of a component stays as it is, and no other text does. -/
theorem componentName_eq_self_iff {requested : String} :
    componentName requested = requested ↔ Text.isPascalCase requested = true := by
  constructor
  · intro h
    rw [← h]
    exact isPascalCase_componentName requested
  · intro h
    rw [componentName]
    simp only [Text.trim_of_isPascalCase h, h, if_true]

/-- The name of a component has letters and digits only, whatever text it was made from. -/
theorem isAlphanum_of_mem_componentName {requested : String} :
    ∀ c ∈ (componentName requested).toList, c.isAlphanum = true :=
  Text.isAlphanum_of_isPascalCase (isPascalCase_componentName requested)

/-- The name of a component is one word of a script. -/
theorem isWordChar_of_mem_componentName {requested : String} :
    ∀ c ∈ (componentName requested).toList, isWordChar c = true := by
  intro c hc
  simp [isWordChar, isAlphanum_of_mem_componentName c hc]

/-! ### Names of attributes -/

/-- A part of an attribute name has characters of attribute names only. -/
theorem isAttributeChar_of_isNamePart {cs : List Char} (h : isNamePart cs = true) :
    ∀ c ∈ cs, isAttributeChar c = true := by
  cases cs with
  | nil => simp
  | cons d ds =>
    simp only [isNamePart, Bool.and_eq_true, Bool.or_eq_true, beq_iff_eq, List.all_eq_true] at h
    obtain ⟨hd, hds⟩ := h
    intro c hc
    rcases List.mem_cons.1 hc with rfl | hc
    · rcases hd with hd | rfl
      · simp [isAttributeChar, Char.isAlphanum, hd]
      · decide
    · rcases hds c hc with (hc | rfl) | rfl
      · simp [isAttributeChar, hc]
      · decide
      · decide

/-- An attribute name has characters of attribute names only. -/
theorem isAttributeChar_of_isAttributeName {name : String} (h : isAttributeName name = true) :
    ∀ c ∈ name.toList, isAttributeChar c = true := by
  simp only [isAttributeName, Bool.and_eq_true, List.all_eq_true] at h
  intro c hc
  rcases Text.mem_pieces_of_mem (· == ':') hc with hcolon | ⟨p, hp, hc⟩
  · obtain rfl := eq_of_beq hcolon
    decide
  · exact isAttributeChar_of_isNamePart (h.2 p hp) c hc

/-- An attribute name is not empty. -/
theorem ne_nil_of_isAttributeName {name : String} (h : isAttributeName name = true) :
    name.toList ≠ [] := by
  intro hnil
  simp [isAttributeName, hnil, Text.pieces, isNamePart] at h

end Jsx

end Mockup
