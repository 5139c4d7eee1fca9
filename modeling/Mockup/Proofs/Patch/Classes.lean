import Mockup.Proofs.Except
import Mockup.Proofs.Jsx.LoneText
import Mockup.Proofs.Jsx.Recorded
import Mockup.Proofs.Patch.Edit
import Mockup.Proofs.Tailwind.ClassList

/-!
# Changing the classes of an element

The classes of an element are read from any literal text and are written between plain double
quotes. The text after a change of classes is a component file again, in which the attribute stands
for the changed list and all else is as it was, if and only if no token of the changed list has a
double quote in it. Only the tokens that an operation brings are checked for one: a token of the
old list may have been written in single quotes or in braces.

## Main results

* `scan_changeClasses`: what is found in the text after a change of classes.
* `scan_changeClasses_broken`: a change of classes that leaves no component file.
-/

namespace Mockup.Patch

open Jsx (Element)
open Tailwind (ClassList)

/-! ### Class lists as attributes -/

/-- What a change of an element does to its classes, if it is about them. -/
def ElementChange.onClasses? : ElementChange → Option (ClassList → ClassList)
  | .addClass classes => some fun l => l.add classes
  | .removeClass classes => some fun l => l.remove classes
  | .replaceClass old new => some fun l => l.replace old new
  | .setAttribute .. | .insertAfter .. => none

/-- The changes of an element that are about its classes. -/
theorem ElementChange.onClasses?_cases {change : ElementChange} {f : ClassList → ClassList}
    (h : change.onClasses? = some f) :
    (∃ classes, change = .addClass classes ∧ f = fun l => l.add classes) ∨
      (∃ classes, change = .removeClass classes ∧ f = fun l => l.remove classes) ∨
      ∃ old new, change = .replaceClass old new ∧ f = fun l => l.replace old new := by
  cases change with
  | addClass classes => exact .inl ⟨classes, rfl, (Option.some.inj h).symm⟩
  | removeClass classes => exact .inr (.inl ⟨classes, rfl, (Option.some.inj h).symm⟩)
  | replaceClass old new => exact .inr (.inr ⟨old, new, rfl, (Option.some.inj h).symm⟩)
  | setAttribute | insertAfter => simp [onClasses?] at h

/-- The attribute for a list of classes holds the text of the list in plain quotes. -/
theorem classText_eq (l : ClassList) :
    classText l = classAttribute.toList ++ '=' :: '"' :: (l.text.toList ++ ['"']) := by
  simp [classText, classAttribute]

/-- The classes of a braced value are those of the text that it stands for. -/
theorem exists_loneText?_of_classesOf {cs : List Char} {l : ClassList}
    (h : classesOf (some (.braced cs)) = .ok l) :
    ∃ text, Jsx.loneText? cs = some text ∧ l = .parse (String.ofList text) := by
  cases htext : Jsx.loneText? cs with
  | none => simp [classesOf, htext] at h
  | some text =>
    refine ⟨text, rfl, ?_⟩
    simpa [classesOf, htext] using h.symm

/-- Classes are read from an attribute without a value and from one that stands for a text. -/
theorem exists_text?_of_classesOf {value : Jsx.Value} {l : ClassList}
    (h : classesOf (some value) = .ok l) : ∃ text, value.text? = some text := by
  cases value with
  | quoted cs => exact ⟨cs, rfl⟩
  | braced cs =>
    obtain ⟨text, htext, -⟩ := exists_loneText?_of_classesOf h
    exact ⟨text, htext⟩

/-- There are no elements inside an attribute that classes are read from. -/
theorem inside_eq_nil_of_classesOf {tag : Jsx.OpenTag} {outer : List Jsx.Context}
    {a : Jsx.OpenAttribute} {inside : List Element} {value : Option Jsx.Value} {l : ClassList}
    (hread : Jsx.ValueRead tag outer a inside value) (h : classesOf value = .ok l) :
    inside = [] := by
  cases value with
  | none => exact hread
  | some value =>
    obtain ⟨text, htext⟩ := exists_text?_of_classesOf h
    exact hread.inside_eq_nil htext

/-- A changed list of classes is put in the place of the old one. -/
theorem eq_of_editClasses {e : Element} {create : Bool} {f : ClassList → ClassList}
    {a : Jsx.Attribute} {edit : Edit} (ha : e.attribute? classAttribute = some a)
    (h : editClasses e create f = .ok (some edit)) :
    ∃ old, classesOf a.value = .ok old ∧ edit = ⟨a.start, a.stop, classText (f old)⟩ := by
  simp only [editClasses, ha] at h
  cases hold : classesOf a.value with
  | error o => simp [hold] at h
  | ok old =>
    simp only [hold, bind_pure_comp] at h
    simp only [Functor.map, Except.map, Except.ok.injEq, Option.ite_none_right_eq_some,
      Option.some.injEq] at h
    exact ⟨old, rfl, h.2.symm⟩

/-- A change of classes that is made edits the classes of every element in the same way. -/
theorem ElementChange.exists_editClasses {change : ElementChange} {f : ClassList → ClassList}
    {source : List Char} {e : Element} {x : Option Edit} (hchange : change.onClasses? = some f)
    (h : change.edit? source e = .ok x) :
    ∃ create, ∀ source' e', change.edit? source' e' = editClasses e' create f := by
  rcases onClasses?_cases hchange with
    ⟨classes, rfl, rfl⟩ | ⟨classes, rfl, rfl⟩ | ⟨old, new, rfl, rfl⟩
  · obtain ⟨_, hcheck, -⟩ := bind_eq_ok_iff.1 h
    refine ⟨true, fun source' e' => ?_⟩
    rw [edit?, hcheck, ok_bind]
  · exact ⟨false, fun source' e' => rfl⟩
  · obtain ⟨_, hcheck, -⟩ := bind_eq_ok_iff.1 h
    refine ⟨true, fun source' e' => ?_⟩
    rw [edit?, hcheck, ok_bind]

/-- Each change of classes edits them, if the classes that it brings can stand in a file. -/
theorem ElementChange.eq_of_edit? {change : ElementChange} {f : ClassList → ClassList}
    {source : List Char} {e : Element} {a : Jsx.Attribute} {edit : Edit}
    (hchange : change.onClasses? = some f) (ha : e.attribute? classAttribute = some a)
    (h : change.edit? source e = .ok (some edit)) :
    ∃ old, classesOf a.value = .ok old ∧ edit = ⟨a.start, a.stop, classText (f old)⟩ := by
  obtain ⟨create, hedit⟩ := exists_editClasses hchange h
  rw [hedit] at h
  exact eq_of_editClasses ha h

/-- An element without classes gets an attribute for them, and nothing is overwritten. -/
theorem ElementChange.insertion_of_edit? {change : ElementChange} {f : ClassList → ClassList}
    {source : List Char} {e : Element} {edit : Edit} (hchange : change.onClasses? = some f)
    (hnone : e.attribute? classAttribute = none)
    (h : change.edit? source e = .ok (some edit)) : edit.start = edit.stop := by
  obtain ⟨create, hedit⟩ := exists_editClasses hchange h
  rw [hedit] at h
  simp only [editClasses, hnone, Except.ok.injEq, Option.ite_none_right_eq_some,
    Option.some.injEq] at h
  obtain ⟨-, rfl⟩ := h
  rfl

/-! ### The text after a change of classes -/

section Change

variable {source : List Char} {es es' : List Element} {e : Element} {a : Jsx.Attribute}
  {old l : ClassList}

/-- Classes without a double quote are read back, and all else is as it was. -/
theorem exists_survives_of_classText (hscan : Jsx.scan source = .ok es)
    (he : e ∈ Element.walkAll es) (ha : e.attribute? classAttribute = some a)
    (hold : classesOf a.value = .ok old) (hplain : '"' ∉ l.text.toList) :
    ∃ es', Jsx.scan (Edit.applyTo source ⟨a.start, a.stop, classText l⟩) = .ok es' ∧
      List.Forall₂
        (Element.Entry.Survives a.start a.stop e.start classAttribute l.text.toList)
        (Element.entriesOfAll none 0 es) (Element.entriesOfAll none 0 es') := by
  have hinside : ∀ front inside, Jsx.AttributeRead source e.start front a inside →
      ∀ f ∈ inside, (fun _ => false) f = true := by
    rintro front inside ⟨tag, outer, -, -, -, hvalue, -⟩ f hf
    rw [inside_eq_nil_of_classesOf hvalue hold] at hf
    simp at hf
  obtain ⟨es', hscan', hsurvives⟩ := Jsx.exists_survives_of_overwrite hscan he ha hinside
    (by simp) (Jsx.writes_plainQuotes hplain) rfl
  rw [Element.allWithout_eq_self fun _ _ => rfl] at hsurvives
  refine ⟨es', ?_, hsurvives⟩
  rw [Edit.applyTo, classText_eq]
  exact hscan'

/-- Of classes with a double quote only what stands before the first one is read back, if anything
is: the attribute does not stand for the text of the list. -/
theorem not_forall₂_of_classText (hscan : Jsx.scan source = .ok es) (he : e ∈ Element.walkAll es)
    (ha : e.attribute? classAttribute = some a) (hquote : '"' ∈ l.text.toList)
    (hscan' : Jsx.scan (Edit.applyTo source ⟨a.start, a.stop, classText l⟩) = .ok es') :
    ¬List.Forall₂
      (Element.Entry.Survives a.start a.stop e.start classAttribute l.text.toList)
      (Element.entriesOfAll none 0 es) (Element.entriesOfAll none 0 es') := by
  intro hsurvives
  obtain ⟨front, back, hsplit, hfront⟩ := List.eq_append_cons_of_mem hquote
  -- The value ends at the first double quote, whatever follows it.
  have htext : classText l = classAttribute.toList ++ '=' :: ('"' :: (front ++ ['"'])) ++
      (back ++ ['"']) := by
    simp [classText_eq, hsplit]
  rw [Edit.applyTo, htext, ← List.append_assoc, List.append_assoc _ (back ++ ['"'])] at hscan'
  obtain ⟨i, e', hi, hi', hvalue⟩ := Jsx.exists_attribute?_of_overwrite hscan he ha
    (Jsx.writes_plainQuotes hfront) hscan'
  obtain ⟨x, x', hx, hx', hsurvive⟩ := Element.exists_of_forall₂_entries hsurvives hi hi'
  subst hx hx'
  have hfull := hsurvive.written rfl
  have hread : x'.element.textOf? classAttribute = some front := by
    rw [Element.textOf?, hvalue]
    rfl
  rw [hread, hsplit, Option.some.injEq] at hfull
  simp at hfull

/-- The double quotes of a list are those of its tokens. -/
theorem quote_not_mem_text_iff : '"' ∉ l.text.toList ↔ ∀ t ∈ l.tokens, '"' ∉ t.toList := by
  constructor
  · intro h t ht hquote
    exact h (ClassList.mem_text_of_mem ht hquote)
  · intro h hquote
    rcases ClassList.mem_toList_text hquote with heq | ⟨t, ht, hmem⟩
    · simp at heq
    · exact h t ht hmem

end Change

/-- The text after a change of the classes of an element that has some: it is a component file with
the same elements, in which the attribute stands for the changed list and the other attributes are
the same but for those that the edit is inside of, exactly if no token of the changed list has a
double quote in it. -/
theorem scan_changeClasses {source next file locator : String} {es : List Element} {e : Element}
    {a : Jsx.Attribute} {change : ElementChange} {f : ClassList → ClassList}
    (hscan : Jsx.scan source.toList = .ok es)
    (hfind : Element.find? source.toList locator.toList es = some e)
    (ha : e.attribute? classAttribute = some a) (hchange : change.onClasses? = some f)
    (happly : Operation.applyTo source ⟨file, .element locator change⟩ = .ok (some next)) :
    e ∈ Element.walkAll es ∧ ∃ old, classesOf a.value = .ok old ∧
      ((∃ es', Jsx.scan next.toList = .ok es' ∧ List.Forall₂
        (Element.Entry.Survives a.start a.stop e.start classAttribute (f old).text.toList)
        (Element.entriesOfAll none 0 es) (Element.entriesOfAll none 0 es')) ↔
      ∀ t ∈ (f old).tokens, '"' ∉ t.toList) := by
  have he := Element.mem_walkAll_of_find? hfind
  obtain ⟨edit, hedit, hnext⟩ := (Operation.applyTo_eq_ok_some_iff hscan hfind).1 happly
  obtain ⟨old, hold, rfl⟩ := ElementChange.eq_of_edit? hchange ha hedit
  refine ⟨he, old, hold, ?_⟩
  rw [← quote_not_mem_text_iff, hnext]
  constructor
  · rintro ⟨es', hscan', hsurvives⟩ hquote
    exact not_forall₂_of_classText hscan he ha hquote hscan' hsurvives
  · intro hplain
    exact exists_survives_of_classText hscan he ha hold hplain

/-- A text with a class in single quotes. -/
def quotedSource : String := "a = <p className=\x7b'x'\x7d>t</p>"

/-- The attribute of that text. -/
def quotedClasses : Jsx.Attribute := ⟨"className", 7, 22, some (.braced "'x'".toList)⟩

/-- The element of that text. -/
def quotedElement : Element := ⟨"p", 4, 6, 23, 28, [quotedClasses], false, []⟩

/-- A class is added to one in single quotes. -/
theorem scan_changeClasses_quoted :
    Jsx.scan quotedSource.toList = .ok [quotedElement] ∧
      Element.find? quotedSource.toList "<p".toList [quotedElement] = some quotedElement ∧
      quotedElement.attribute? classAttribute = some quotedClasses ∧
      (ElementChange.addClass "y").onClasses? = some (fun l => l.add "y") ∧
      Operation.applyTo quotedSource ⟨"f", .element "<p" (.addClass "y")⟩ =
        .ok (some "a = <p className=\"x y\">t</p>") ∧
      quotedElement ∈ Element.walkAll [quotedElement] ∧
      ∃ old, classesOf quotedClasses.value = .ok old ∧
        ((∃ es', Jsx.scan "a = <p className=\"x y\">t</p>".toList = .ok es' ∧ List.Forall₂
          (Element.Entry.Survives quotedClasses.start quotedClasses.stop quotedElement.start
            classAttribute (old.add "y").text.toList)
          (Element.entriesOfAll none 0 [quotedElement]) (Element.entriesOfAll none 0 es')) ↔
        ∀ t ∈ (old.add "y").tokens, '"' ∉ t.toList) := by
  have hscan : Jsx.scan quotedSource.toList = .ok [quotedElement] := rfl
  have hfind : Element.find? quotedSource.toList "<p".toList [quotedElement] =
      some quotedElement := rfl
  have ha : quotedElement.attribute? classAttribute = some quotedClasses := rfl
  have hchange : (ElementChange.addClass "y").onClasses? = some (fun l => l.add "y") := rfl
  have happly : Operation.applyTo quotedSource ⟨"f", .element "<p" (.addClass "y")⟩ =
      .ok (some "a = <p className=\"x y\">t</p>") :=
    (Operation.applyTo_eq_ok_some_iff hscan hfind).2 ⟨_, rfl, rfl⟩
  exact ⟨hscan, hfind, ha, hchange, happly, scan_changeClasses hscan hfind ha hchange happly⟩

/-- A text with a class in single quotes that has double quotes in it. -/
def hostileSource : String := "a = <p className=\x7b'content-[\"x\"]'\x7d>t</p>"

/-- The attribute of that text. -/
def hostileClasses : Jsx.Attribute :=
  ⟨"className", 7, 34, some (.braced "'content-[\"x\"]'".toList)⟩

/-- The element of that text. -/
def hostileElement : Element := ⟨"p", 4, 6, 35, 40, [hostileClasses], false, []⟩

/-- A class is added to one with double quotes, and what is left is no component file. -/
theorem scan_changeClasses_broken :
    Jsx.scan hostileSource.toList = .ok [hostileElement] ∧
      Element.find? hostileSource.toList "<p".toList [hostileElement] = some hostileElement ∧
      hostileElement.attribute? classAttribute = some hostileClasses ∧
      Operation.problems [] ⟨"f", .element "<p" (.addClass "y")⟩ = [] ∧
      Operation.applyTo hostileSource ⟨"f", .element "<p" (.addClass "y")⟩ =
        .ok (some "a = <p className=\"content-[\"x\"] y\">t</p>") ∧
      ∀ es', Jsx.scan "a = <p className=\"content-[\"x\"] y\">t</p>".toList ≠ .ok es' := by
  have hscan : Jsx.scan hostileSource.toList = .ok [hostileElement] := rfl
  have hfind : Element.find? hostileSource.toList "<p".toList [hostileElement] =
      some hostileElement := rfl
  have happly : Operation.applyTo hostileSource ⟨"f", .element "<p" (.addClass "y")⟩ =
      .ok (some "a = <p className=\"content-[\"x\"] y\">t</p>") :=
    (Operation.applyTo_eq_ok_some_iff hscan hfind).2 ⟨_, rfl, rfl⟩
  have hbroken : Jsx.scan "a = <p className=\"content-[\"x\"] y\">t</p>".toList =
      .error ⟨29, .strayCharacter⟩ := rfl
  refine ⟨hscan, hfind, rfl, by decide, happly, fun es' h => ?_⟩
  rw [hbroken] at h
  cases h

end Mockup.Patch
