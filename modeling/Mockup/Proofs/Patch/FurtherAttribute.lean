import Mockup.Proofs.Jsx.Fragment
import Mockup.Proofs.Patch.Twice

/-!
# Giving an element a further attribute

A change that brings classes or an attribute to an element without them writes the attribute after
the last one, or after the name. The text is a component file again with the same elements, in which
the attribute stands for what was brought, if and only if the element has a name: after the angle
bracket of a fragment there is no place for an attribute.

## Main results

* `ElementChange.exists_insertion`: what is written, and where.
* `scan_furtherAttribute`: what is found in the text after the operation.
* `scan_furtherAttribute_fragment`: an attribute of a fragment leaves no component file.
-/

namespace Mockup.Patch

open Jsx (Element)
open Tailwind (ClassList)

/-- The attribute that a change brings to an element without it, with the text that it then stands
for. -/
def ElementChange.brings? : ElementChange → Option (String × String)
  | .addClass classes => some (classAttribute, (ClassList.empty.add classes).text)
  | .replaceClass old new => some (classAttribute, (ClassList.empty.replace old new).text)
  | .setAttribute name value => some (name, value)
  | .removeClass .. | .insertAfter .. => none

variable {source : List Char} {e : Element} {edit : Edit} {change : ElementChange}
  {name text : String}

/-- Classes that are brought to an element without any stand between plain quotes. -/
theorem ElementChange.eq_insertion_of_onClasses? {f : ClassList → ClassList}
    (hchange : change.onClasses? = some f) (hnone : e.attribute? classAttribute = none)
    (h : change.edit? source e = .ok (some edit)) :
    edit = .insertion e.insertPoint (' ' :: (classAttribute.toList ++
      '=' :: '"' :: ((f .empty).text.toList ++ ['"']))) ∧ '"' ∉ (f .empty).text.toList := by
  have hbrought := isPlain_of_edit? h
  obtain ⟨create, hedit⟩ := exists_editClasses hchange h
  rw [hedit] at h
  simp only [editClasses, hnone, Except.ok.injEq, Option.ite_none_right_eq_some,
    Option.some.injEq] at h
  refine ⟨by rw [← h.2, classText_eq], quote_not_mem_text_iff.2 fun t ht => ?_⟩
  rcases mem_of_onClasses? hchange ht with ht | ht
  · cases ht
  · exact (hbrought t ht).2

/-- An attribute that is brought is written where a new one goes. -/
theorem ElementChange.exists_insertion {place : Place}
    (hbrings : change.brings? = some (name, text))
    (hvalid : change.problems place = []) (hnone : e.attribute? name = none)
    (h : change.edit? source e = .ok (some edit)) :
    ∃ written value, edit = .insertion e.insertPoint (' ' :: (name.toList ++ '=' :: written)) ∧
      Jsx.isAttributeName name = true ∧ Jsx.Writes written value ∧
        value.text? = some text.toList := by
  cases change with
  | addClass | replaceClass =>
    obtain ⟨rfl, rfl⟩ := Prod.mk.inj (Option.some.inj hbrings)
    obtain ⟨hedit, hplain⟩ := eq_insertion_of_onClasses? rfl hnone h
    exact ⟨_, _, hedit, rfl, Jsx.writes_plainQuotes hplain, rfl⟩
  | setAttribute name value =>
    obtain ⟨rfl, rfl⟩ := Prod.mk.inj (Option.some.inj hbrings)
    have hedit : editAttribute source e name value = some edit := Except.ok.inj h
    simp only [editAttribute, hnone, Option.some.injEq] at hedit
    refine ⟨_, _, hedit.symm, ?_, Jsx.writes_literal value.toList,
      Jsx.text?_literalValue value.toList⟩
    simpa [problems, Problem.when] using hvalid
  | removeClass | insertAfter => cases hbrings

/-- The text after an attribute was brought to an element without it: a component file with the same
elements in the same relations, in which the attribute stands for what was brought and all other
attributes are as they were, exactly if the element has a name. -/
theorem scan_furtherAttribute {source next file locator : String} {es : List Element}
    {place : Place} (hscan : Jsx.scan source.toList = .ok es)
    (hfind : Element.find? source.toList locator.toList es = some e)
    (hbrings : change.brings? = some (name, text)) (hnone : e.attribute? name = none)
    (hvalid : Operation.problems place ⟨file, .element locator change⟩ = [])
    (happly : Operation.applyTo source ⟨file, .element locator change⟩ = .ok (some next)) :
    e ∈ Element.walkAll es ∧
      ((∃ es', Jsx.scan next.toList = .ok es' ∧ List.Forall₂
        (Element.Entry.Survives e.insertPoint e.insertPoint e.start name text.toList)
        (Element.entriesOfAll none 0 es) (Element.entriesOfAll none 0 es')) ↔ e.tag ≠ "") := by
  have he := Element.mem_walkAll_of_find? hfind
  have hproblems : change.problems place = [] := by
    simp only [Operation.problems, Change.problems, List.append_eq_nil_iff] at hvalid
    exact hvalid.1.2.2
  refine ⟨he, ?_⟩
  constructor
  · rintro ⟨es', hscan', hsurvives⟩ htag
    -- The attribute would stand in an element without a name.
    obtain ⟨i, hi⟩ := List.getElem?_of_mem he
    have hlength : i < (Element.walkAll es').length := by
      have hsame := hsurvives.length_eq
      rw [Element.length_entriesOfAll, Element.length_entriesOfAll] at hsame
      exact hsame ▸ (List.getElem?_eq_some_iff.1 hi).1
    obtain ⟨x, x', rfl, hx', survives⟩ := Element.exists_of_forall₂_entries hsurvives hi
      (List.getElem?_eq_getElem hlength)
    have hmem : x'.element ∈ Element.walkAll es' := hx' ▸ List.getElem_mem hlength
    have hnil := Jsx.attributes_eq_nil_of_tag_eq hscan' hmem (survives.tag.trans htag)
    have hwritten := survives.written rfl
    rw [Element.textOf?, Element.attribute?, hnil] at hwritten
    cases hwritten
  · intro htag
    obtain ⟨edit, hedit, hnext⟩ := (Operation.applyTo_eq_ok_some_iff hscan hfind).1 happly
    obtain ⟨written, value, rfl, hname, hwrites, htext⟩ :=
      ElementChange.exists_insertion hbrings hproblems hnone hedit
    rw [hnext]
    exact Jsx.exists_survives_of_insert hscan he htag hnone (Jsx.ne_nil_of_isAttributeName hname)
      (Jsx.isAttributeChar_of_isAttributeName hname) hwrites htext

/-- A text with an element that has a spread and an attribute without a value. -/
def spreadSource : String := "f(<p \x7b...s\x7d k/>)"

/-- The element of that text. -/
def spreadElement : Element := ⟨"p", 2, 4, 15, 15, [⟨"k", 12, 13, none⟩], true, []⟩

/-- That text with classes. -/
def spreadNext : String := "f(<p \x7b...s\x7d k className=\"y z\"/>)"

/-- Classes are brought to an element after an attribute without a value. -/
theorem scan_furtherAttribute_spread :
    Jsx.scan spreadSource.toList = .ok [spreadElement] ∧
      Element.find? spreadSource.toList "k/".toList [spreadElement] = some spreadElement ∧
      (ElementChange.addClass "y z").brings? = some (classAttribute, "y z") ∧
      spreadElement.attribute? classAttribute = none ∧
      Operation.problems [] ⟨"f", .element "k/" (.addClass "y z")⟩ = [] ∧
      Operation.applyTo spreadSource ⟨"f", .element "k/" (.addClass "y z")⟩ =
        .ok (some spreadNext) ∧
      spreadElement ∈ Element.walkAll [spreadElement] ∧
      ((∃ es', Jsx.scan spreadNext.toList = .ok es' ∧ List.Forall₂
        (Element.Entry.Survives spreadElement.insertPoint spreadElement.insertPoint
          spreadElement.start classAttribute "y z".toList)
        (Element.entriesOfAll none 0 [spreadElement]) (Element.entriesOfAll none 0 es')) ↔
      spreadElement.tag ≠ "") := by
  have hscan : Jsx.scan spreadSource.toList = .ok [spreadElement] := rfl
  have hfind : Element.find? spreadSource.toList "k/".toList [spreadElement] =
      some spreadElement := rfl
  have hbrings : (ElementChange.addClass "y z").brings? = some (classAttribute, "y z") := by decide
  have hnone : spreadElement.attribute? classAttribute = none := rfl
  have hvalid : Operation.problems [] ⟨"f", .element "k/" (.addClass "y z")⟩ = [] := by decide
  have happly : Operation.applyTo spreadSource ⟨"f", .element "k/" (.addClass "y z")⟩ =
      .ok (some spreadNext) := (Operation.applyTo_eq_ok_some_iff hscan hfind).2 ⟨_, rfl, rfl⟩
  exact ⟨hscan, hfind, hbrings, hnone, hvalid, happly,
    scan_furtherAttribute hscan hfind hbrings hnone hvalid happly⟩

/-- A text with a fragment. -/
def fragmentSource : String := "a = <>x</>"

/-- The fragment of that text. -/
def fragmentElement : Element := ⟨"", 4, 5, 6, 10, [], false, []⟩

/-- Classes are brought to a fragment, and what is left is no component file. -/
theorem scan_furtherAttribute_fragment :
    Jsx.scan fragmentSource.toList = .ok [fragmentElement] ∧
      Element.find? fragmentSource.toList "x".toList [fragmentElement] = some fragmentElement ∧
      fragmentElement.attribute? classAttribute = none ∧
      Operation.problems [] ⟨"f", .element "x" (.addClass "y")⟩ = [] ∧
      Operation.applyTo fragmentSource ⟨"f", .element "x" (.addClass "y")⟩ =
        .ok (some "a = < className=\"y\">x</>") ∧
      ∀ es', Jsx.scan "a = < className=\"y\">x</>".toList ≠ .ok es' := by
  have hscan : Jsx.scan fragmentSource.toList = .ok [fragmentElement] := rfl
  have hfind : Element.find? fragmentSource.toList "x".toList [fragmentElement] =
      some fragmentElement := rfl
  have happly : Operation.applyTo fragmentSource ⟨"f", .element "x" (.addClass "y")⟩ =
      .ok (some "a = < className=\"y\">x</>") :=
    (Operation.applyTo_eq_ok_some_iff hscan hfind).2 ⟨_, rfl, rfl⟩
  have hbroken : Jsx.scan "a = < className=\"y\">x</>".toList = .error ⟨22, .openPattern⟩ := rfl
  refine ⟨hscan, hfind, rfl, by decide, happly, fun es' h => ?_⟩
  rw [hbroken] at h
  cases h

end Mockup.Patch
