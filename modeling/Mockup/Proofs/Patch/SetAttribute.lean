import Mockup.Proofs.Jsx.AttributeEdit
import Mockup.Proofs.Jsx.Name
import Mockup.Proofs.Patch.Edit

/-!
# Giving an attribute a text

The text after an attribute of an element was given a text is a component file again. The attribute
stands for the given text, whatever characters are in it, and all else is as it was: the elements
but for those in an overwritten value, and the other attributes but for those around the edit.

## Main results

* `scan_setAttribute`: what is found in the text after the operation.
-/

namespace Mockup.Patch

open Jsx (Element)

variable {source next file locator name value : String} {es : List Element} {e : Element}

/-- An element begins before the edit of one of its attributes. -/
theorem start_lt_of_editAttribute {edit : Edit} (hscan : Jsx.scan source.toList = .ok es)
    (he : e ∈ Element.walkAll es)
    (hedit : editAttribute source.toList e name value = some edit) : e.start < edit.start := by
  have sound := (Jsx.forest_of_scan hscan).2 e he
  unfold editAttribute at hedit
  cases ha : e.attribute? name with
  | none =>
    simp only [ha, Option.some.injEq] at hedit
    subst hedit
    exact sound.start_lt_insertPoint
  | some a =>
    simp only [ha, Option.ite_none_left_eq_some, Option.some.injEq] at hedit
    obtain ⟨-, rfl⟩ := hedit
    have hplaced := sound.placed
    have hname := hplaced.start_lt
    have hbounds := hplaced.attribute_bounds a (List.mem_of_find?_eq_some ha)
    show e.start < a.start
    omega

/-- The elements inside an attribute lie in the text that is replaced with it. -/
theorem covers_of_attributeRead {start : Nat} {front : List Jsx.Attribute} {a : Jsx.Attribute}
    {inside : List Element} {source text : List Char}
    (hread : Jsx.AttributeRead source start front a inside) :
    ∀ f ∈ inside, Edit.covers ⟨a.start, a.stop, text⟩ f = true := by
  intro f hf
  obtain ⟨t, outer, -, -, -, -, forest, -⟩ := hread
  have hbounds := forest.1.of_mem hf
  exact Edit.covers_eq_true_iff.2 ⟨hbounds.1, hbounds.2.2⟩

/-- The text after an edit of an attribute: what is found in it. -/
theorem scan_editAttribute {edit : Edit} (hscan : Jsx.scan source.toList = .ok es)
    (he : e ∈ Element.walkAll es) (htag : e.tag ≠ "") (hname : Jsx.isAttributeName name = true)
    (hedit : editAttribute source.toList e name value = some edit) :
    ∃ es', Jsx.scan (edit.applyTo source.toList) = .ok es' ∧
      List.Forall₂ (Element.Entry.Survives edit.start edit.stop e.start name value.toList)
        (Element.entriesOfAll none 0 (Element.allWithout edit.covers es))
        (Element.entriesOfAll none 0 es') := by
  have hwrites := Jsx.writes_literal value.toList
  have htext := Jsx.text?_literalValue value.toList
  have forest := Jsx.forest_of_scan hscan
  unfold editAttribute at hedit
  cases ha : e.attribute? name with
  | none =>
    simp only [ha, Option.some.injEq] at hedit
    subst hedit
    have hall : Element.allWithout
        (Edit.insertion e.insertPoint (' ' :: attributeText name value)).covers es = es := by
      refine Element.allWithout_eq_self fun f hf => ?_
      -- An element is not empty, so it does not lie in an empty text.
      have hbounds := forest.bounds hf
      rw [Bool.eq_false_iff, ne_eq, Edit.covers_eq_true_iff]
      rintro ⟨hstart, hstop⟩
      have hlt : f.stop ≤ f.start := Nat.le_trans hstop hstart
      omega
    rw [hall]
    exact Jsx.exists_survives_of_insert hscan he htag ha (Jsx.ne_nil_of_isAttributeName hname)
      (Jsx.isAttributeChar_of_isAttributeName hname) hwrites htext
  | some a =>
    simp only [ha, Option.ite_none_left_eq_some, Option.some.injEq] at hedit
    obtain ⟨-, rfl⟩ := hedit
    exact Jsx.exists_survives_of_overwrite hscan he ha
      (fun _ _ hread => covers_of_attributeRead hread)
      (fun f hf => Edit.covers_eq_true_iff.1 hf) hwrites htext

/-- The text after an attribute of an element was given a text: the elements are the old ones but
for those in an overwritten value, in the same order and with the same relations; the attribute
stands for the text; and the other attributes are the same but for those that the edit is inside of.
-/
theorem scan_setAttribute (hscan : Jsx.scan source.toList = .ok es)
    (hfind : Element.find? source.toList locator.toList es = some e) (htag : e.tag ≠ "")
    (hname : Jsx.isAttributeName name = true)
    (happly : Operation.applyTo source ⟨file, .element locator (.setAttribute name value)⟩ =
      .ok (some next)) :
    ∃ edit es', editAttribute source.toList e name value = some edit ∧
      next.toList = edit.applyTo source.toList ∧ Jsx.scan next.toList = .ok es' ∧
      e.without edit.covers ∈ Element.walkAll (Element.allWithout edit.covers es) ∧
      List.Forall₂ (Element.Entry.Survives edit.start edit.stop e.start name value.toList)
        (Element.entriesOfAll none 0 (Element.allWithout edit.covers es))
        (Element.entriesOfAll none 0 es') := by
  obtain ⟨edit, hedit, hnext⟩ := (Operation.applyTo_eq_ok_some_iff hscan hfind).1 happly
  have hedit : editAttribute source.toList e name value = some edit := Except.ok.inj hedit
  have he := Element.mem_walkAll_of_find? hfind
  obtain ⟨es', hscan', hsurvives⟩ := scan_editAttribute hscan he htag hname hedit
  refine ⟨edit, es', hedit, hnext, ?_, ?_, hsurvives⟩
  · rw [hnext]
    exact hscan'
  · refine Element.mem_allWithout (Jsx.forest_of_scan hscan) he fun f hf => ?_
    have hlt := start_lt_of_editAttribute hscan he hedit
    rw [Bool.eq_false_iff, ne_eq, Edit.covers_eq_true_iff]
    omega

/-- A text with an element in the value of an attribute. -/
def nestedSource : String := "a = <p t=\x7b<b/>\x7d k>x</p>"

/-- The outer element of that text. -/
def nestedElement : Element :=
  ⟨"p", 4, 6, 18, 23, [⟨"t", 7, 15, some (.braced "<b/>".toList)⟩, ⟨"k", 16, 17, none⟩], false,
    [⟨"b", 10, 12, 14, 14, [], true, []⟩]⟩

/-- A value with an element in it is overwritten by a text with quotes, a brace and a tag. -/
theorem scan_setAttribute_nested :
    Jsx.scan nestedSource.toList = .ok [nestedElement] ∧
      Element.find? nestedSource.toList "k>x".toList [nestedElement] = some nestedElement ∧
      nestedElement.tag ≠ "" ∧ Jsx.isAttributeName "t" = true ∧
      Operation.applyTo nestedSource ⟨"f", .element "k>x" (.setAttribute "t" "\"\x7b\"</p>")⟩ =
        .ok (some "a = <p t=\x7b\"\\\"\x7b\\\"</p>\"\x7d k>x</p>") ∧
      ∃ edit es',
        editAttribute nestedSource.toList nestedElement "t" "\"\x7b\"</p>" = some edit ∧
        "a = <p t=\x7b\"\\\"\x7b\\\"</p>\"\x7d k>x</p>".toList =
          edit.applyTo nestedSource.toList ∧
        Jsx.scan "a = <p t=\x7b\"\\\"\x7b\\\"</p>\"\x7d k>x</p>".toList = .ok es' ∧
        nestedElement.without edit.covers ∈
          Element.walkAll (Element.allWithout edit.covers [nestedElement]) ∧
        List.Forall₂ (Element.Entry.Survives edit.start edit.stop nestedElement.start "t"
            "\"\x7b\"</p>".toList)
          (Element.entriesOfAll none 0 (Element.allWithout edit.covers [nestedElement]))
          (Element.entriesOfAll none 0 es') := by
  have hscan : Jsx.scan nestedSource.toList = .ok [nestedElement] := rfl
  have hfind : Element.find? nestedSource.toList "k>x".toList [nestedElement] =
      some nestedElement := rfl
  have htag : nestedElement.tag ≠ "" := by decide
  have hname : Jsx.isAttributeName "t" = true := by decide
  have happly : Operation.applyTo nestedSource
      ⟨"f", .element "k>x" (.setAttribute "t" "\"\x7b\"</p>")⟩ =
        .ok (some "a = <p t=\x7b\"\\\"\x7b\\\"</p>\"\x7d k>x</p>") :=
    (Operation.applyTo_eq_ok_some_iff hscan hfind).2 ⟨_, rfl, rfl⟩
  exact ⟨hscan, hfind, htag, hname, happly, scan_setAttribute hscan hfind htag hname happly⟩

end Mockup.Patch
