import Mockup.Patch.Request
import Mockup.Proofs.Jsx.FoundAgain
import Mockup.Proofs.Patch.Classes
import Mockup.Proofs.Patch.SetAttribute
import Mockup.Proofs.Tailwind.Twice

/-!
# Operations made twice

An operation that changes the classes of an element or gives it an attribute writes an attribute in
which it finds nothing to change. Made again, it looks for its element in the text that it left: if
the text of the element still holds the locator, the operation finds that element and is done.

## Main results

* `ElementChange.exists_settledBy`: the edit of a change writes an attribute that settles the
  change.
* `applyTo_again`: an operation made again changes nothing.
-/

namespace Mockup.Patch

open Jsx (Element)
open Tailwind (ClassList)

variable {source : List Char} {e : Element} {edit : Edit} {change : ElementChange}
  {f : ClassList → ClassList} {l old : ClassList}

/-! ### Edits that write an attribute -/

/-- The edit that writes an attribute of an element: in the place of the one with that name, or
after the last one. -/
def Edit.ofAttribute (e : Element) (name : String) (text : List Char) : Edit :=
  match e.attribute? name with
  | some a => ⟨a.start, a.stop, name.toList ++ '=' :: text⟩
  | none => .insertion e.insertPoint (' ' :: (name.toList ++ '=' :: text))

/-- An attribute that is written is found in the text after the edit. -/
theorem exists_written_of_ofAttribute {es : List Element} {name : String} {text : List Char}
    {value : Jsx.Value} (hscan : Jsx.scan source = .ok es) (he : e ∈ Element.walkAll es)
    (htag : e.tag ≠ "") (hname : Jsx.isAttributeName name = true)
    (hvalue : Jsx.Writes text value) :
    ∃ d es', Jsx.AttributeWritten d source ((Edit.ofAttribute e name text).applyTo source) es es' e
      name text value := by
  unfold Edit.ofAttribute
  cases ha : e.attribute? name with
  | none =>
    obtain ⟨d, es', -, -, -, written⟩ :=
      Jsx.exists_written_of_insert hscan he htag ha (Jsx.ne_nil_of_isAttributeName hname)
        (Jsx.isAttributeChar_of_isAttributeName hname) hvalue
    exact ⟨d, es', written⟩
  | some a =>
    have hinside (front : List Jsx.Attribute) (inside : List Element)
        (hread : Jsx.AttributeRead source e.start front a inside) : ∀ f ∈ inside,
          Edit.covers ⟨a.start, a.stop, name.toList ++ '=' :: text⟩ f = true :=
      covers_of_attributeRead hread
    obtain ⟨d, es', -, -, -, written⟩ := Jsx.exists_written_of_overwrite hscan he ha hinside
      (fun f hf => Edit.covers_eq_true_iff.1 hf) hvalue
    exact ⟨d, es', written⟩

/-! ### Attributes -/

/-- The edit of an attribute writes it. -/
theorem eq_ofAttribute_of_editAttribute {name value : String}
    (h : editAttribute source e name value = some edit) :
    edit = .ofAttribute e name (Jsx.literal value.toList) := by
  unfold editAttribute at h
  unfold Edit.ofAttribute
  cases ha : e.attribute? name with
  | none =>
    simp only [ha, Option.some.injEq] at h
    exact h.symm
  | some a =>
    simp only [ha, Option.ite_none_left_eq_some, Option.some.injEq] at h
    exact h.2.symm

/-- An attribute that is written as it should be is not edited. -/
theorem editAttribute_of_bears {name value : String} {v : Jsx.Value}
    (h : e.Bears source name (Jsx.literal value.toList) v) :
    editAttribute source e name value = none := by
  obtain ⟨a, ha, -, hslice⟩ := h
  simp only [editAttribute, ha]
  exact if_pos hslice

/-! ### Classes -/

/-- The classes of an element, which has none without the attribute for them. -/
def classesIn (e : Element) : Except Obstacle ClassList :=
  match e.attribute? classAttribute with
  | some a => classesOf a.value
  | none => .ok .empty

/-- The edit of the classes of an element writes the changed list. -/
theorem exists_ofAttribute_of_editClasses {create : Bool}
    (h : editClasses e create f = .ok (some edit)) :
    ∃ old, classesIn e = .ok old ∧
      edit = .ofAttribute e classAttribute ('"' :: ((f old).text.toList ++ ['"'])) := by
  unfold classesIn Edit.ofAttribute
  cases ha : e.attribute? classAttribute with
  | none =>
    simp only [editClasses, ha, Except.ok.injEq, Option.ite_none_right_eq_some,
      Option.some.injEq] at h
    refine ⟨.empty, rfl, ?_⟩
    rw [← h.2, classText_eq]
  | some a =>
    obtain ⟨old, hold, rfl⟩ := eq_of_editClasses ha h
    exact ⟨old, hold, by rw [classText_eq]⟩

/-- A word without double quotes. -/
def IsPlain (t : String) : Prop :=
  Text.IsWord t ∧ '"' ∉ t.toList

/-- The classes of an element are read from a text, which is empty without an attribute. -/
theorem exists_parse_of_classesIn (h : classesIn e = .ok old) : ∃ text, old = .parse text := by
  unfold classesIn at h
  cases ha : e.attribute? classAttribute with
  | none =>
    simp only [ha, Except.ok.injEq] at h
    exact ⟨"", h.symm⟩
  | some a =>
    simp only [ha] at h
    unfold classesOf at h
    split at h
    · exact ⟨"", (Except.ok.inj h).symm⟩
    · exact ⟨_, (Except.ok.inj h).symm⟩
    · split at h
      · exact ⟨_, (Except.ok.inj h).symm⟩
      · cases h

/-- A list that is written in an attribute and that a change keeps is not edited. -/
theorem editClasses_of_bears {create : Bool} {text : List Char}
    (h : e.Bears source classAttribute text (.quoted l.text.toList))
    (hplain : ∀ t ∈ l.tokens, IsPlain t) (hsame : f l = l) : editClasses e create f = .ok none := by
  obtain ⟨a, ha, hvalue, -⟩ := h
  have hold : classesOf a.value = .ok l := by
    rw [hvalue]
    show Except.ok (ClassList.parse (String.ofList l.text.toList)) = .ok l
    rw [String.ofList_toList, ClassList.parse_text fun t ht => (hplain t ht).1]
  have hunchanged : ClassList.changed l l = false := by
    simp [ClassList.changed]
  simp only [editClasses, ha, hold, ok_bind, hsame, hunchanged]
  rfl

/-! ### Changes of classes -/

/-- The tokens that a change of classes brings. -/
def ElementChange.brought : ElementChange → List String
  | .addClass classes => Text.words classes
  | .replaceClass _ new => Text.words new
  | .removeClass .. | .setAttribute .. | .insertAfter .. => []

/-- A changed list holds no tokens but those that it held and those that the change brings. -/
theorem ElementChange.mem_of_onClasses? (h : change.onClasses? = some f) {t : String}
    (ht : t ∈ (f l).tokens) : t ∈ l.tokens ∨ t ∈ change.brought := by
  rcases onClasses?_cases h with
    ⟨classes, rfl, rfl⟩ | ⟨classes, rfl, rfl⟩ | ⟨old, new, rfl, rfl⟩
  · exact ClassList.mem_add.1 ht
  · exact .inl (List.mem_of_mem_filter ht)
  · exact ClassList.mem_or_mem_of_mem_replace ht

/-- A change of classes made twice is the same as made once. -/
theorem ElementChange.onClasses_twice (h : change.onClasses? = some f) (l : ClassList) :
    f (f l) = f l := by
  rcases onClasses?_cases h with
    ⟨classes, rfl, rfl⟩ | ⟨classes, rfl, rfl⟩ | ⟨old, new, rfl, rfl⟩
  · exact ClassList.add_add l classes
  · exact ClassList.remove_remove l classes
  · exact ClassList.replace_replace l old new

/-- Classes that pass the check are words without double quotes. -/
theorem isPlain_of_checkClasses {classes : String} (h : checkClasses classes = .ok ()) :
    ∀ t ∈ Text.words classes, IsPlain t := by
  intro t ht
  refine ⟨Text.isWord_of_mem_words ht, fun hquote => ?_⟩
  unfold checkClasses at h
  split at h
  · cases h
  · next hnone =>
    have hodd := List.find?_eq_none.1 hnone t ht
    exact hodd (List.any_eq_true.2 ⟨'"', hquote, rfl⟩)

/-- The tokens that a change of classes brings are plain, if it is made. -/
theorem ElementChange.isPlain_of_edit? {x : Option Edit} (h : change.edit? source e = .ok x) :
    ∀ t ∈ change.brought, IsPlain t := by
  cases change with
  | addClass | replaceClass =>
    obtain ⟨_, hcheck, -⟩ := bind_eq_ok_iff.1 h
    exact isPlain_of_checkClasses hcheck
  | removeClass | setAttribute | insertAfter => simp [brought]

/-! ### Changes that are settled -/

/-- An attribute that a change finds nothing to change in. -/
structure ElementChange.SettledBy (change : ElementChange) (name : String) (text : List Char)
    (value : Jsx.Value) : Prop where
  /-- The name can be written. -/
  isAttributeName : Jsx.isAttributeName name = true
  /-- The text is read as the value. -/
  writes : Jsx.Writes text value
  /-- Nothing is changed in an element that bears the attribute. -/
  settled : ∀ source e, e.Bears source name text value → change.edit? source e = .ok none

/-- The edit of a change writes an attribute that settles it. -/
theorem ElementChange.exists_settledBy {place : Place}
    (hinsert : ∀ code, change ≠ .insertAfter code)
    (hvalid : change.problems place = [])
    (hquote : ∀ old, classesIn e = .ok old → ∀ t ∈ old.tokens, '"' ∉ t.toList)
    (h : change.edit? source e = .ok (some edit)) :
    ∃ name text value, edit = .ofAttribute e name text ∧ change.SettledBy name text value := by
  cases hclasses : change.onClasses? with
  | some f =>
    obtain ⟨create, hedit⟩ := exists_editClasses hclasses h
    have hchecked := isPlain_of_edit? h
    rw [hedit] at h
    obtain ⟨old, hold, rfl⟩ := exists_ofAttribute_of_editClasses h
    -- The old tokens were read from the text, and the check lets no others in.
    have hplain : ∀ t ∈ (f old).tokens, IsPlain t := by
      intro t ht
      rcases mem_of_onClasses? hclasses ht with ht | ht
      · obtain ⟨text, rfl⟩ := exists_parse_of_classesIn hold
        exact ⟨ClassList.isWord_of_mem_parse ht, hquote _ hold t ht⟩
      · exact hchecked t ht
    have hplainText := quote_not_mem_text_iff.2 fun t ht => (hplain t ht).2
    have hname : Jsx.isAttributeName classAttribute = true := rfl
    refine ⟨_, _, _, rfl, hname, Jsx.writes_plainQuotes hplainText, ?_⟩
    -- The list is read back from the attribute, and the change keeps it.
    intro source' e' hbears
    rw [hedit]
    exact editClasses_of_bears hbears hplain (onClasses_twice hclasses old)
  | none =>
    cases change with
    | setAttribute name value =>
      have hedit : editAttribute source e name value = some edit := Except.ok.inj h
      have hname : Jsx.isAttributeName name = true := by
        simpa [problems, Problem.when] using hvalid
      refine ⟨name, _, _, eq_ofAttribute_of_editAttribute hedit, hname,
        Jsx.writes_literal value.toList, ?_⟩
      intro source' e' hbears
      exact congrArg Except.ok (editAttribute_of_bears hbears)
    | insertAfter code => exact absurd rfl (hinsert code)
    | addClass | removeClass | replaceClass => simp [onClasses?] at hclasses

/-! ### Operations -/

/-- An operation that finds nothing to change leaves a text and a log as they are. -/
theorem Operation.runOn_eq_self {op : Operation} {text : String} (h : op.applyTo text = .ok none)
    (log : Log) : op.runOn (text, log) = (text, log) := by
  simp only [runOn, h]
  rfl

/-- An operation that finds nothing to change in its file leaves all files and a log as they are. -/
theorem Operation.runOnFiles_eq_self {op : Operation} {files : Dict String} {text : String}
    (hfile : files.get? op.file = some text) (h : op.applyTo text = .ok none) (log : Log) :
    op.runOnFiles (files, log) = (files, log) := by
  simp only [runOnFiles, hfile, h]
  rfl

/-- An operation on an element changes nothing if its change is settled there. -/
theorem Operation.applyTo_eq_ok_none {next file locator : String} {es : List Element}
    (hscan : Jsx.scan next.toList = .ok es)
    (hfind : Element.find? next.toList locator.toList es = some e)
    (hedit : change.edit? next.toList e = .ok none) :
    Operation.applyTo next ⟨file, .element locator change⟩ = .ok none := by
  simp only [Operation.applyTo, Change.edit?, editElement, hscan, hfind, hedit]
  rfl

/-- An operation without problems that changes the classes of an element or gives it an attribute,
made again on the text that it left: if the text of the edited element still holds the locator, the
operation finds that element again and changes nothing, and neither does a request that goes on with
it. The element has a tag, and its old classes have no double quote in them. -/
theorem applyTo_again {source next file locator : String} {es : List Element} {place : Place}
    (hscan : Jsx.scan source.toList = .ok es)
    (hfind : Element.find? source.toList locator.toList es = some e) (htag : e.tag ≠ "")
    (hinsert : ∀ code, change ≠ .insertAfter code)
    (hvalid : Operation.problems place ⟨file, .element locator change⟩ = [])
    (hquote : ∀ old, classesIn e = .ok old → ∀ t ∈ old.tokens, '"' ∉ t.toList)
    (happly : Operation.applyTo source ⟨file, .element locator change⟩ = .ok (some next)) :
    ∃ es' e', Jsx.scan next.toList = .ok es' ∧ Element.Same es es' e e' ∧
      (Element.holds next.toList locator.toList e' = true →
        Element.find? next.toList locator.toList es' = some e' ∧
        Operation.applyTo next ⟨file, .element locator change⟩ = .ok none ∧
        (∀ log, Operation.runOn ⟨file, .element locator change⟩ (next, log) = (next, log)) ∧
        ∀ (files : Dict String) log, files.get? file = some next →
          Operation.runOnFiles ⟨file, .element locator change⟩ (files, log) = (files, log)) := by
  obtain ⟨edit, hedit, hnext⟩ := (Operation.applyTo_eq_ok_some_iff hscan hfind).1 happly
  have hproblems : change.problems place = [] := by
    simp only [Operation.problems, Change.problems, List.append_eq_nil_iff] at hvalid
    exact hvalid.1.2.2
  obtain ⟨name, text, value, rfl, settles⟩ := change.exists_settledBy hinsert hproblems hquote hedit
  obtain ⟨d, es', written⟩ := exists_written_of_ofAttribute hscan
    (Element.mem_walkAll_of_find? hfind) htag settles.isAttributeName settles.writes
  rw [← hnext] at written
  obtain ⟨e', same, bears, hagain⟩ := written.exists_again hscan hfind
  refine ⟨es', e', written.scanned, same, fun hholds => ?_⟩
  have hfind' := hagain hholds
  have hnone : Operation.applyTo next ⟨file, .element locator change⟩ = .ok none :=
    Operation.applyTo_eq_ok_none written.scanned hfind' (settles.settled _ _ bears)
  exact ⟨hfind', hnone, Operation.runOn_eq_self hnone,
    fun files log hfile => Operation.runOnFiles_eq_self hfile hnone log⟩

/-- An operation that puts classes in the place of a class which is one of them. -/
def wrapClass : Operation := ⟨"f", .element "<p" (.replaceClass "x" "y x")⟩

/-- The text that it leaves. -/
def wrappedSource : String := "a = <p className=\"y x\">t</p>"

/-- The element of that text. -/
def wrappedElement : Element :=
  ⟨"p", 4, 6, 23, 28, [⟨"className", 7, 22, some (.quoted "y x".toList)⟩], false, []⟩

/-- The second time the class stays, with what was put around it. -/
theorem applyTo_again_wrapClass :
    Jsx.scan quotedSource.toList = .ok [quotedElement] ∧
      Element.find? quotedSource.toList "<p".toList [quotedElement] = some quotedElement ∧
      quotedElement.tag ≠ "" ∧
      (∀ code, ElementChange.replaceClass "x" "y x" ≠ .insertAfter code) ∧
      wrapClass.problems [] = [] ∧
      (∀ old, classesIn quotedElement = .ok old → ∀ t ∈ old.tokens, '"' ∉ t.toList) ∧
      wrapClass.applyTo quotedSource = .ok (some wrappedSource) ∧
      ∃ es' e', Jsx.scan wrappedSource.toList = .ok es' ∧
        Element.Same [quotedElement] es' quotedElement e' ∧
        Element.holds wrappedSource.toList "<p".toList e' = true ∧
        Element.find? wrappedSource.toList "<p".toList es' = some e' ∧
        wrapClass.applyTo wrappedSource = .ok none ∧
        (∀ log, wrapClass.runOn (wrappedSource, log) = (wrappedSource, log)) ∧
        ∀ (files : Dict String) log, files.get? "f" = some wrappedSource →
          wrapClass.runOnFiles (files, log) = (files, log) := by
  have hscan : Jsx.scan quotedSource.toList = .ok [quotedElement] := rfl
  have hfind : Element.find? quotedSource.toList "<p".toList [quotedElement] =
      some quotedElement := rfl
  have htag : quotedElement.tag ≠ "" := by decide
  have hinsert (code : String) : ElementChange.replaceClass "x" "y x" ≠ .insertAfter code := by
    intro h
    cases h
  have hvalid : wrapClass.problems [] = [] := by decide
  have hquote (old : ClassList) (hold : classesIn quotedElement = .ok old) :
      ∀ t ∈ old.tokens, '"' ∉ t.toList := by
    obtain rfl : ClassList.parse "x" = old := Except.ok.inj hold
    decide
  have happly : wrapClass.applyTo quotedSource = .ok (some wrappedSource) :=
    (Operation.applyTo_eq_ok_some_iff hscan hfind).2 ⟨_, rfl, rfl⟩
  obtain ⟨es', e', hscan', same, hagain⟩ :=
    applyTo_again hscan hfind htag hinsert hvalid hquote happly
  have hwrapped : Jsx.scan wrappedSource.toList = .ok [wrappedElement] := rfl
  obtain rfl : [wrappedElement] = es' := Except.ok.inj (hwrapped.symm.trans hscan')
  obtain ⟨i, -, hi⟩ := same.position
  obtain rfl : e' = wrappedElement := List.mem_singleton.1 (List.mem_of_getElem? hi)
  have hholds : Element.holds wrappedSource.toList "<p".toList wrappedElement = true := rfl
  exact ⟨hscan, hfind, htag, hinsert, hvalid, hquote, happly, _, _, hscan', same, hholds,
    hagain hholds⟩

end Mockup.Patch
