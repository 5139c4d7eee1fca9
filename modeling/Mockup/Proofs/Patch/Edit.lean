import Mockup.Patch.Edit
import Mockup.Proofs.Jsx.Find

/-!
# What an operation does to a text

An operation on an element finds the element in the text and asks for an edit, and the edit puts one
text in the place of another one.

## Main results

* `Operation.applyTo_eq_ok_some_iff`, `Operation.exists_edit_of_applyTo`: the text after an
  operation on an element is that of an edit.
-/

namespace Mockup.Patch

open Jsx (Element)

/-- An element lies in the text that an edit replaces. -/
def Edit.covers (edit : Edit) (e : Element) : Bool :=
  edit.start ≤ e.start && e.stop ≤ edit.stop

theorem Edit.covers_eq_true_iff {edit : Edit} {e : Element} :
    edit.covers e = true ↔ edit.start ≤ e.start ∧ e.stop ≤ edit.stop := by
  simp [covers]

/-- The text after an operation on an element is that of the edit which the change asks for. -/
theorem Operation.applyTo_eq_ok_some_iff {source next file locator : String}
    {change : ElementChange} {es : List Element} {e : Element}
    (hscan : Jsx.scan source.toList = .ok es)
    (hfind : Element.find? source.toList locator.toList es = some e) :
    Operation.applyTo source ⟨file, .element locator change⟩ = .ok (some next) ↔
      ∃ edit, change.edit? source.toList e = .ok (some edit) ∧
        next.toList = edit.applyTo source.toList := by
  simp only [Operation.applyTo, Change.edit?, editElement, hscan, hfind]
  cases change.edit? source.toList e with
  | error f => simp [Except.map]
  | ok edit =>
    cases edit with
    | none => simp [Except.map]
    | some edit =>
      simp only [Except.map, Option.map_some, Except.ok.injEq, Option.some.injEq,
        exists_eq_left']
      constructor
      · rintro rfl
        exact String.toList_ofList
      · intro h
        rw [← h, String.ofList_toList]

/-- An operation on an element that changes the text found the element. -/
theorem Operation.exists_edit_of_applyTo {source next file locator : String}
    {change : ElementChange} {es : List Element} (hscan : Jsx.scan source.toList = .ok es)
    (h : Operation.applyTo source ⟨file, .element locator change⟩ = .ok (some next)) :
    ∃ e edit, Element.find? source.toList locator.toList es = some e ∧
      change.edit? source.toList e = .ok (some edit) ∧
        next.toList = edit.applyTo source.toList := by
  cases hfind : Element.find? source.toList locator.toList es with
  | none =>
    simp [Operation.applyTo, Change.edit?, editElement, hscan, hfind, Except.map] at h
  | some e =>
    obtain ⟨edit, hedit, hnext⟩ := (Operation.applyTo_eq_ok_some_iff hscan hfind).1 h
    exact ⟨e, edit, rfl, hedit, hnext⟩

end Mockup.Patch
