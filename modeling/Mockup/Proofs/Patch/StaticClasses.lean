import Mockup.Proofs.Jsx.ByteToken
import Mockup.Proofs.Patch.Classes

/-!
# Classes that are told without running anything

The classes in a braced value are changed only if the braces hold one literal text. Such a text is
one token of the script, and the classes are those that it stands for; code of several tokens is
never overwritten by a change of classes.

## Main results

* `staticClasses_sound`: what a change of classes overwrites.
-/

namespace Mockup.Patch

open Jsx (Element OneToken)
open Tailwind (ClassList)

/-- A text that can be told from a braced value is what one token between the braces stands for.
A change of classes that is made overwrites nothing or the attribute for classes, and where that is
a braced value, one token with the old classes in it. -/
theorem staticClasses_sound {source : String} {es : List Element}
    (hscan : Jsx.scan source.toList = .ok es) :
    (∀ e ∈ Element.walkAll es, ∀ a ∈ e.attributes, ∀ cs text, a.value = some (.braced cs) →
      Jsx.loneText? cs = some text → OneToken source.toList a cs text) ∧
    ∀ file locator change f next, ElementChange.onClasses? change = some f →
      Operation.applyTo source ⟨file, .element locator change⟩ = .ok (some next) →
      ∃ (e : Element) (edit : Edit), Element.find? source.toList locator.toList es = some e ∧
        next.toList = edit.applyTo source.toList ∧
        (edit.start = edit.stop ∨ ∃ a, e.attribute? classAttribute = some a ∧
          edit.start = a.start ∧ edit.stop = a.stop ∧ ∀ cs, a.value = some (.braced cs) →
            ∃ text, OneToken source.toList a cs text ∧
              edit.text = classText (f (.parse (String.ofList text)))) := by
  have htoken : ∀ e ∈ Element.walkAll es, ∀ a ∈ e.attributes, ∀ cs text,
      a.value = some (.braced cs) → Jsx.loneText? cs = some text →
        OneToken source.toList a cs text :=
    fun e he a ha cs text => Jsx.exists_oneToken hscan he ha
  refine ⟨htoken, fun file locator change f next hchange happly => ?_⟩
  obtain ⟨e, edit, hfind, hedit, hnext⟩ := Operation.exists_edit_of_applyTo hscan happly
  refine ⟨e, edit, hfind, hnext, ?_⟩
  -- An attribute for classes is overwritten if its classes can be told; without one, it is
  -- inserted.
  cases ha : e.attribute? classAttribute with
  | none => exact .inl (ElementChange.insertion_of_edit? hchange ha hedit)
  | some a =>
    obtain ⟨old, hold, rfl⟩ := ElementChange.eq_of_edit? hchange ha hedit
    refine .inr ⟨a, rfl, rfl, rfl, fun cs hvalue => ?_⟩
    rw [hvalue] at hold
    obtain ⟨text, htext, rfl⟩ := exists_loneText?_of_classesOf hold
    have hmem : a ∈ e.attributes := List.mem_of_find?_eq_some ha
    exact ⟨text, htoken e (Element.mem_walkAll_of_find? hfind) a hmem cs text hvalue htext, rfl⟩

/-- The code of an attribute with an escaped line feed and a surrogate pair, between blanks. -/
def escapedCode : List Char := " \"x\\n\\ud83d\\ude00\" ".toList

/-- A text with that code in the braces for the classes. -/
def escapedSource : String := "<p className=\x7b" ++ String.ofList escapedCode ++ "\x7d/>"

/-- The attribute of that text. -/
def escapedClasses : Jsx.Attribute := ⟨"className", 3, 34, some (.braced escapedCode)⟩

/-- The element of that text. -/
def escapedElement : Element := ⟨"p", 0, 2, 36, 36, [escapedClasses], true, []⟩

/-- The escapes are read as a line feed and one character. -/
theorem loneText?_escapedCode : Jsx.loneText? escapedCode = some ['x', '\n', '😀'] := by
  have hpair : Json.unquote? ('\\' :: "ud83d\\ude00\"".toList) = some (['😀'], []) := by
    have hescape : Json.escape? "ud83d\\ude00\"".toList = some ('😀', ['"']) := by decide
    rw [Json.unquote?_escape hescape]
    simp [Json.unquote?]
  have htext : Json.unquote? ('x' :: '\\' :: 'n' :: '\\' :: "ud83d\\ude00\"".toList) =
      some (['x', '\n', '😀'], []) := by
    rw [Json.unquote?_self (by decide) (by decide) (by decide), Json.unquote?_escape rfl, hpair]
    rfl
  have htrimmed : Text.trimmed escapedCode =
      '"' :: 'x' :: '\\' :: 'n' :: '\\' :: "ud83d\\ude00\"".toList := rfl
  rw [Jsx.loneText?, htrimmed]
  simp only [htext]

/-- A class is added to those that the escapes stand for. -/
theorem edit?_escapedElement :
    (ElementChange.addClass "y").edit? escapedSource.toList escapedElement =
      .ok (some ⟨3, 34, "className=\"x 😀 y\"".toList⟩) := by
  have ha : escapedElement.attribute? classAttribute = some escapedClasses := rfl
  have hold : classesOf escapedClasses.value = .ok (.parse (String.ofList ['x', '\n', '😀'])) := by
    simp [classesOf, escapedClasses, loneText?_escapedCode]
  have hcheck : checkClasses "y" = .ok () := rfl
  simp only [ElementChange.edit?, hcheck, ok_bind, editClasses, ha, hold]
  rfl

/-- A class is added to the classes that such code stands for. -/
theorem staticClasses_sound_escaped :
    Jsx.scan escapedSource.toList = .ok [escapedElement] ∧
      OneToken escapedSource.toList escapedClasses escapedCode ['x', '\n', '😀'] ∧
      ∃ (e : Element) (edit : Edit),
        Element.find? escapedSource.toList "<p".toList [escapedElement] = some e ∧
        "<p className=\"x 😀 y\"/>".toList = edit.applyTo escapedSource.toList ∧
        (edit.start = edit.stop ∨ ∃ a, e.attribute? classAttribute = some a ∧
          edit.start = a.start ∧ edit.stop = a.stop ∧ ∀ cs, a.value = some (.braced cs) →
            ∃ text, OneToken escapedSource.toList a cs text ∧
              edit.text = classText ((ClassList.parse (String.ofList text)).add "y")) := by
  have hscan : Jsx.scan escapedSource.toList = .ok [escapedElement] := rfl
  have hfind : Element.find? escapedSource.toList "<p".toList [escapedElement] =
      some escapedElement := rfl
  have happly : Operation.applyTo escapedSource ⟨"f", .element "<p" (.addClass "y")⟩ =
      .ok (some "<p className=\"x 😀 y\"/>") :=
    (Operation.applyTo_eq_ok_some_iff hscan hfind).2 ⟨_, edit?_escapedElement, by decide⟩
  have hmem : escapedElement ∈ Element.walkAll [escapedElement] := by simp
  have ha : escapedClasses ∈ escapedElement.attributes := List.mem_singleton_self _
  obtain ⟨htoken, hclasses⟩ := staticClasses_sound hscan
  have hone := htoken escapedElement hmem escapedClasses ha escapedCode _ rfl loneText?_escapedCode
  have hedit := hclasses "f" "<p" (.addClass "y") (fun l => l.add "y") _ rfl happly
  exact ⟨hscan, hone, hedit⟩

end Mockup.Patch
