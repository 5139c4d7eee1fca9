import Mockup.Proofs.Jsx.Walk

/-!
# What is asked of elements

The element that a locator finds is one of those of the text, and the text of an attribute is that
of the first attribute with its name.
-/

namespace Mockup.Jsx.Element

/-! ### Attributes -/

/-- The text that an attribute of an element stands for, if it can be told. -/
def textOf? (e : Element) (name : String) : Option (List Char) :=
  ((e.attribute? name).bind Attribute.value).bind Value.text?

/-- The first attribute with a name stands after attributes with other names. -/
theorem attribute?_eq_some_iff {e : Element} {name : String} {a : Attribute} :
    e.attribute? name = some a ↔ a.name = name ∧ ∃ front back,
      e.attributes = front ++ a :: back ∧ ∀ b ∈ front, b.name ≠ name := by
  simp [attribute?, List.find?_eq_some_iff_append]

/-- An element without an attribute has attributes with other names only. -/
theorem attribute?_eq_none_iff {e : Element} {name : String} :
    e.attribute? name = none ↔ ∀ a ∈ e.attributes, a.name ≠ name := by
  simp [attribute?]

/-! ### Locators -/

theorem narrow_eq (p : Element → Bool) (e : Element) :
    e.narrow p = (narrowIn p e.children).getD e := by
  cases e
  rw [narrow]

/-- What is narrowed in several elements is one of those inside them. -/
theorem mem_walkAll_of_narrowIn {p : Element → Bool} {es : List Element} {f : Element}
    (h : narrowIn p es = some f) : f ∈ walkAll es := by
  induction es using forest_induction with
  | nil => simp [narrowIn] at h
  | cons e es ihc ihs =>
    rw [narrowIn] at h
    rw [walkAll_cons, List.mem_cons, List.mem_append]
    split at h
    · rw [narrow_eq, Option.some.injEq] at h
      -- The search ends at the element if nothing inside it satisfies `p`, or else inside it.
      cases hin : narrowIn p e.children with
      | none =>
        rw [hin] at h
        exact .inl h.symm
      | some g =>
        rw [hin] at h
        obtain rfl : g = f := h
        exact .inr (.inl (ihc hin))
    · exact .inr (.inr (ihs h))

/-- What is inside an element that a walk meets, the walk meets too. -/
theorem walkAll_children_subset {e : Element} {es : List Element} (h : e ∈ walkAll es) :
    ∀ f ∈ walkAll e.children, f ∈ walkAll es := by
  intro f hf
  induction es using forest_induction with
  | nil => simp at h
  | cons g gs ihc ihs =>
    rw [walkAll_cons, List.mem_cons, List.mem_append] at h ⊢
    rcases h with rfl | h | h
    · exact .inr (.inl hf)
    · exact .inr (.inl (ihc h))
    · exact .inr (.inr (ihs h))

/-- The element that a locator finds is one of those of the text. -/
theorem mem_walkAll_of_find? {source locator : List Char} {es : List Element} {e : Element}
    (h : find? source locator es = some e) : e ∈ walkAll es := by
  obtain ⟨f, hf, rfl⟩ := Option.map_eq_some_iff.1 h
  have hmem := List.mem_of_find?_eq_some hf
  rw [narrow_eq]
  cases hin : narrowIn (holds source locator) f.children with
  | none => exact hmem
  | some g => exact walkAll_children_subset hmem g (mem_walkAll_of_narrowIn hin)

end Mockup.Jsx.Element
