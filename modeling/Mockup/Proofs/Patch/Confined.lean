import Mockup.Proofs.Patch.Files
import Mockup.Proofs.Patch.Twice

/-!
# What an operation changes

An operation that is reported as a change puts one text in the place of another one, in the place
that its kind allows, and the two texts differ. All else is as it was, and an operation that is not
reported as a change leaves the text as it was.

* `Change.Confined change source next` — the two texts differ in one place, where the change may
  edit.
* `changing ops source` — the operations that change the text when all are run in order.

## Main results

* `ElementChange.exists_replaced`: the edit that a change of an element asks for is a change of its
  place.
* `applyTo_confined`: what an operation does to a text and what is reported of it.
-/

namespace Mockup.Patch

open Jsx (Element)
open Tailwind (ClassList)

variable {source : List Char} {es : List Element} {e : Element} {edit : Edit}
  {change : ElementChange}

/-! ### Places -/

/-- Where a change of an element puts a text in the place of another one: inserted lines go right
after the element, and all else goes between the name and the end of its opening tag. -/
def ElementChange.Edits (e : Element) (front old new : List Char) : ElementChange → Prop
  | .insertAfter code => Text.byteLength front = e.stop ∧ old = [] ∧ new = '\n' :: code.toList
  | _ => e.nameEnd ≤ Text.byteLength front ∧ Text.byteLength (front ++ old) < e.openEnd

/-- Where a change puts a text in the place of another one: at the element that its locator finds,
or at the first place of the text that it replaces. -/
def Change.Edits (source front old new : List Char) : Change → Prop
  | .element locator change => ∃ es e, Jsx.scan source = .ok es ∧
      Element.find? source locator.toList es = some e ∧ change.Edits e front old new
  | .text find replacement => old = find.toList ∧ new = replacement.toList ∧
      ∀ front' back', source = front' ++ find.toList ++ back' → front.length ≤ front'.length

/-- Two texts that differ in one place, where a change may edit. -/
def Change.Confined (change : Change) (source next : List Char) : Prop :=
  next ≠ source ∧ ∃ front old new back, source = front ++ old ++ back ∧
    next = front ++ new ++ back ∧ change.Edits source front old new

/-- Another text in a place is another text. -/
theorem append_ne_append {front old new back : List Char} (h : new ≠ old) :
    front ++ new ++ back ≠ front ++ old ++ back := by
  simpa using h

/-! ### Attributes -/

/-- An attribute has its place in the opening tag, and so has a further one. -/
theorem Edit.ofAttribute_bounds (sound : e.Sound source) (name : String) (text : List Char) :
    e.nameEnd ≤ (ofAttribute e name text).start ∧
      (ofAttribute e name text).start ≤ (ofAttribute e name text).stop ∧
      (ofAttribute e name text).stop < e.openEnd ∧
      Text.IsBoundary source (ofAttribute e name text).start ∧
      Text.IsBoundary source (ofAttribute e name text).stop := by
  have placed := sound.placed
  unfold ofAttribute
  cases ha : e.attribute? name with
  | some a =>
    have hmem : a ∈ e.attributes := List.mem_of_find?_eq_some ha
    obtain ⟨hstart, hlt, hstop⟩ := placed.attribute_bounds a hmem
    exact ⟨hstart, Nat.le_of_lt hlt, hstop, placed.isBoundary_attribute a hmem⟩
  | none =>
    obtain ⟨hle, hlt, hboundary⟩ := sound.insertPoint_bounds
    exact ⟨hle, Nat.le_refl _, hlt, hboundary, hboundary⟩

/-- An attribute of an element gets another text. -/
theorem editAttribute_ne_slice {name value : String}
    (h : editAttribute source e name value = some edit) :
    edit.text ≠ Text.slice edit.start edit.stop source := by
  unfold editAttribute at h
  cases ha : e.attribute? name with
  | none =>
    simp only [ha, Option.some.injEq] at h
    subst h
    simp [Edit.insertion, Text.slice]
  | some a =>
    simp only [ha, Option.ite_none_left_eq_some, Option.some.injEq] at h
    obtain ⟨hne, rfl⟩ := h
    exact Ne.symm hne

/-- A list of classes whose text stands in an element already is the one that is read from there:
of a list with a double quote only the beginning is read, so it is no list that a change brings. -/
theorem classes_settled {f : ClassList → ClassList} {a : Jsx.Attribute} {old : ClassList}
    (hscan : Jsx.scan source = .ok es) (he : e ∈ Element.walkAll es)
    (ha : e.attribute? classAttribute = some a) (hold : classesOf a.value = .ok old)
    (hchange : change.onClasses? = some f) (hbrought : ∀ t ∈ change.brought, IsPlain t)
    (hslice : Text.slice a.start a.stop source = classText (f old)) :
    e.Bears source classAttribute ('"' :: ((f old).text.toList ++ ['"']))
      (.quoted (f old).text.toList) ∧ ∀ t ∈ (f old).tokens, IsPlain t := by
  rw [classText_eq] at hslice
  -- What stands before the first double quote is the value of the attribute.
  have hvalue (front rest : List Char) (hfront : '"' ∉ front)
      (hrest : (f old).text.toList ++ ['"'] = front ++ '"' :: rest) :
      a.value = some (.quoted front) := by
    have hread : Text.slice a.start a.stop source =
        classAttribute.toList ++ '=' :: ('"' :: (front ++ ['"'])) ++ rest := by
      rw [hslice, hrest]
      simp
    exact Jsx.value_of_slice hscan he ha (Jsx.writes_plainQuotes hfront) hread
  have htokens (front : List Char) (h : a.value = some (.quoted front)) (hfront : '"' ∉ front) :
      ∀ t ∈ (f old).tokens, IsPlain t := by
    obtain rfl : ClassList.parse (String.ofList front) = old := by
      rw [h] at hold
      exact Except.ok.inj hold
    intro t ht
    rcases ElementChange.mem_of_onClasses? hchange ht with ht | ht
    · refine ⟨ClassList.isWord_of_mem_parse ht, fun hquote => hfront ?_⟩
      have hmem := Text.mem_of_mem_words (ClassList.mem_parse.1 ht) hquote
      rwa [String.toList_ofList] at hmem
    · exact hbrought t ht
  have hplain : '"' ∉ (f old).text.toList := by
    intro hquote
    obtain ⟨front, back, hsplit, hfront⟩ := List.eq_append_cons_of_mem hquote
    have hread := hvalue front (back ++ ['"']) hfront (by rw [hsplit]; simp)
    exact quote_not_mem_text_iff.2 (fun t ht => (htokens front hread hfront t ht).2) hquote
  have hread := hvalue _ [] hplain rfl
  exact ⟨⟨a, ha, hread, hslice⟩, htokens _ hread hplain⟩

/-- The classes of an element get another text. -/
theorem ElementChange.classes_ne_slice {f : ClassList → ClassList}
    (hscan : Jsx.scan source = .ok es) (he : e ∈ Element.walkAll es)
    (hchange : change.onClasses? = some f) (h : change.edit? source e = .ok (some edit)) :
    edit.text ≠ Text.slice edit.start edit.stop source := by
  cases ha : e.attribute? classAttribute with
  | none =>
    obtain ⟨create, hedit⟩ := exists_editClasses hchange h
    rw [hedit] at h
    simp only [editClasses, ha, Except.ok.injEq, Option.ite_none_right_eq_some,
      Option.some.injEq] at h
    rw [← h.2]
    simp [Edit.insertion, Text.slice]
  | some a =>
    obtain ⟨old, hold, rfl⟩ := eq_of_edit? hchange ha h
    intro hslice
    obtain ⟨hbears, hplain⟩ :=
      classes_settled hscan he ha hold hchange (isPlain_of_edit? h) hslice.symm
    -- So the change finds nothing to do.
    obtain ⟨create, hedit⟩ := exists_editClasses hchange h
    have hnone : editClasses e create f = .ok none :=
      editClasses_of_bears hbears hplain (onClasses_twice hchange old)
    rw [hedit, hnone] at h
    cases h

/-! ### Elements -/

/-- The edit of an attribute or of classes writes the text of an attribute, which is another one
than what stands there. -/
theorem ElementChange.exists_ofAttribute_ne_slice (hscan : Jsx.scan source = .ok es)
    (he : e ∈ Element.walkAll es) (hinsert : ∀ code, change ≠ .insertAfter code)
    (h : change.edit? source e = .ok (some edit)) : ∃ name text, edit = .ofAttribute e name text ∧
      edit.text ≠ Text.slice edit.start edit.stop source := by
  cases hclasses : change.onClasses? with
  | some f =>
    have hne := classes_ne_slice hscan he hclasses h
    obtain ⟨create, hedit⟩ := exists_editClasses hclasses h
    rw [hedit] at h
    obtain ⟨old, -, hold⟩ := exists_ofAttribute_of_editClasses h
    exact ⟨_, _, hold, hne⟩
  | none =>
    cases change with
    | setAttribute name value =>
      have hedit : editAttribute source e name value = some edit := Except.ok.inj h
      exact ⟨_, _, eq_ofAttribute_of_editAttribute hedit, editAttribute_ne_slice hedit⟩
    | insertAfter code => exact absurd rfl (hinsert code)
    | addClass | removeClass | replaceClass => simp [onClasses?] at hclasses

/-- The edit that a change of an element asks for puts another text in its place. -/
theorem ElementChange.exists_replaced (hscan : Jsx.scan source = .ok es)
    (he : e ∈ Element.walkAll es) (h : change.edit? source e = .ok (some edit)) :
    ∃ front old back, source = front ++ old ++ back ∧
      edit.applyTo source = front ++ edit.text ++ back ∧ edit.text ≠ old ∧
      change.Edits e front old edit.text := by
  have sound := (Jsx.forest_of_scan hscan).2 e he
  by_cases hinsert : ∃ code, change = .insertAfter code
  · -- The code stands where the element ends, so no text is replaced.
    obtain ⟨code, rfl⟩ := hinsert
    obtain rfl : Edit.insertion e.stop ('\n' :: code.toList) = edit :=
      Option.some.inj (Except.ok.inj h)
    have hboundary := sound.placed.isBoundary_stop
    obtain ⟨front, back, hsource, hnext, hfront, -⟩ :=
      hboundary.exists_replace hboundary (Nat.le_refl _) ('\n' :: code.toList)
    have hnil : Text.slice e.stop e.stop source = [] := by
      rw [Text.slice, Nat.sub_self, Text.takeBytes_zero]
    rw [hnil] at hsource
    exact ⟨front, [], back, hsource, hnext, List.cons_ne_nil _ _, hfront, rfl, rfl⟩
  · -- The attribute stands between the name of the element and the end of its opening tag.
    obtain ⟨name, text, rfl, hne⟩ :=
      exists_ofAttribute_ne_slice hscan he (not_exists.1 hinsert) h
    obtain ⟨hstart, hle, hstop, hboundary, hboundary'⟩ := Edit.ofAttribute_bounds sound name text
    obtain ⟨front, back, hsource, hnext, hfront, hold⟩ :=
      hboundary.exists_replace hboundary' hle (Edit.ofAttribute e name text).text
    refine ⟨front, _, back, hsource, hnext, hne, ?_⟩
    have hplace : e.nameEnd ≤ Text.byteLength front ∧ Text.byteLength (front ++ Text.slice
        (Edit.ofAttribute e name text).start (Edit.ofAttribute e name text).stop source) <
          e.openEnd := by
      rw [hold, hfront]
      exact ⟨hstart, hstop⟩
    cases change with
    | insertAfter code => exact absurd ⟨code, rfl⟩ hinsert
    | addClass | removeClass | replaceClass | setAttribute => exact hplace

/-! ### Operations -/

/-- The edit of a text is a change of the first place of what it replaces. -/
theorem editText_confined {find replacement : String}
    (h : editText source find replacement = .ok (some edit)) :
    (Change.text find replacement).Confined source (edit.applyTo source) := by
  unfold editText at h
  split at h
  · cases h
  · next before after hsplit =>
    simp only [Except.ok.injEq, Option.ite_none_left_eq_some, Option.some.injEq] at h
    obtain ⟨hne, rfl⟩ := h
    have hsource := Text.eq_append_of_splitAt? hsplit
    have hnext : Edit.applyTo source ⟨Text.byteLength before,
        Text.byteLength before + Text.byteLength find.toList, replacement.toList⟩ =
          before ++ replacement.toList ++ after := by
      rw [Edit.applyTo, hsource, ← Text.byteLength_append, Text.dropBytes_append,
        List.append_assoc before, Text.takeBytes_append]
    have htexts : replacement.toList ≠ find.toList := fun heq => hne (String.toList_inj.1 heq.symm)
    refine ⟨?_, before, find.toList, replacement.toList, after, hsource, hnext, rfl, rfl,
      fun front' back' hfront' => Text.length_le_of_splitAt? hsplit hfront'⟩
    rw [hnext]
    intro heq
    exact append_ne_append htexts (heq.trans hsource)

/-- An operation that gives a new text makes a change of its place. -/
theorem Operation.confined_of_applyTo {op : Operation} {source next : String}
    (h : op.applyTo source = .ok (some next)) : op.change.Confined source.toList next.toList := by
  unfold applyTo at h
  obtain ⟨edit?, hedit, hmap⟩ := map_eq_ok_iff.1 h
  obtain ⟨edit, rfl, rfl⟩ := Option.map_eq_some_iff.1 hmap
  rw [String.toList_ofList]
  obtain ⟨file, change⟩ := op
  cases change with
  | text find replacement => exact editText_confined hedit
  | element locator change =>
    -- There is an edit, so the text was scanned and the locator found an element.
    simp only [Change.edit?, editElement] at hedit
    split at hedit
    · cases hedit
    · next es hscan =>
      split at hedit
      · cases hedit
      · next e hfind =>
        obtain ⟨front, old, back, hsource, hnext, hne, hedits⟩ :=
          ElementChange.exists_replaced hscan (Element.mem_walkAll_of_find? hfind) hedit
        refine ⟨?_, front, old, edit.text, back, hsource, hnext, es, e, hscan, hfind, hedits⟩
        rw [hnext]
        intro heq
        exact append_ne_append hne (heq.trans hsource)

/-! ### Requests -/

/-- The operations that change the text when all are run in order. -/
def changing : List Operation → String → List Operation
  | [], _ => []
  | op :: ops, text =>
    if textAfter [op] text = text then changing ops text
    else op :: changing ops (textAfter [op] text)

/-- An operation is reported as a change if and only if it changes the text. -/
theorem diffsAfter_singleton (op : Operation) (text : String) :
    diffsAfter [op] text = if textAfter [op] text = text then [] else [op.label] := by
  have hdiffs : diffsAfter [op] text = (op.runOn (text, {})).2.diffs := rfl
  have htext : textAfter [op] text = (op.runOn (text, {})).1 := rfl
  rw [hdiffs, htext, Operation.runOn]
  cases happly : op.applyTo text with
  | error f => exact (if_pos rfl).symm
  | ok result =>
    cases result with
    | none => exact (if_pos rfl).symm
    | some next =>
      have hne : next ≠ text := fun heq =>
        (Operation.confined_of_applyTo happly).1 (congrArg String.toList heq)
      exact (if_neg hne).symm

/-- The operations that are reported as changes are those that change the text. -/
theorem diffsAfter_eq_map_changing (ops : List Operation) (text : String) :
    diffsAfter ops text = (changing ops text).map Operation.label := by
  induction ops generalizing text with
  | nil => rfl
  | cons op ops ih =>
    rw [diffsAfter_cons, diffsAfter_singleton, changing, ih]
    split
    · next hsame => rw [hsame, List.nil_append]
    · rfl

/-- An operation that gives a new text changes the text in one place, where its kind may edit, and
is reported as a change; one that finds nothing to change leaves the text and the report, and one
that fails leaves the text. So a request reports the operations that change the text, each once and
in order. -/
theorem applyTo_confined :
    (∀ (op : Operation) (source : String) (log : Log), match op.applyTo source with
      | .ok (some next) => op.change.Confined source.toList next.toList ∧
          op.runOn (source, log) = (next, { log with diffs := log.diffs ++ [op.label] })
      | .ok none => op.runOn (source, log) = (source, log)
      | .error f => op.runOn (source, log) =
          (source, { log with errors := log.errors ++ [op.label ++ " " ++ f.message] })) ∧
      ∀ (ops : List Operation) (source : String),
        (Request.applyTo ⟨ops⟩ source).diffs = (changing ops source).map Operation.label := by
  refine ⟨fun op source log => ?_, diffsAfter_eq_map_changing⟩
  cases happly : op.applyTo source with
  | error f =>
    simp only [Operation.runOn, happly]
    rfl
  | ok result =>
    cases result with
    | none => exact Operation.runOn_eq_self happly log
    | some next =>
      refine ⟨Operation.confined_of_applyTo happly, ?_⟩
      simp only [Operation.runOn, happly]
      rfl

end Mockup.Patch
