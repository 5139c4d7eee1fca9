import Mockup.Proofs.Jsx.Name
import Mockup.Proofs.Text.Probing
import Mockup.Proofs.Ui.FieldNames

/-!
# Forms with one input for each text

A form that is made from texts has one input for each of them, in their order. The name of an input
is searched for among the names that the earlier inputs have left free, starting at a name made from
the text. The search ends, so every input has a name, and the names differ.

* `s.IsFieldName` — an ASCII letter followed by ASCII letters and digits.
* `f.AsksFor content position` — a field asks for the text with this content at this position.

## Main results

* `isFieldName_fieldSlug`: a name made from a text is a field name, whatever the text is.
* `exists_field`: each text has its field, with the name that the search finds.
* `inputForm_asksForEach`: the form as a whole, and the search for every base and every set of
  taken names.
-/

namespace Mockup.Ui

open Markup (Element)
open Text (Names)

/-- An ASCII letter followed by ASCII letters and digits. -/
def IsFieldName (name : String) : Prop :=
  ∃ c cs, name.toList = c :: cs ∧ c.isAlpha = true ∧ ∀ d ∈ cs, d.isAlphanum = true

/-- A field asks for the text with this content: it is an input whose label and hint show the
content, or the position of the text, counted from one, if there is nothing to show. -/
structure Field.AsksFor (f : Field) (content : String) (position : Nat) : Prop where
  component : f.component = .input
  label : f.label =
    some (if content.isEmpty then "Field " ++ toString (position + 1) else content)
  placeholder : f.placeholder =
    some (if content.isEmpty then "Enter field " ++ toString (position + 1)
      else "Enter " ++ content)

/-! ### Names -/

/-- A field name with letters and digits after it is a field name. -/
theorem IsFieldName.append {base number : String} (h : IsFieldName base)
    (hnumber : ∀ c ∈ number.toList, c.isAlphanum = true) : IsFieldName (base ++ number) := by
  obtain ⟨c, cs, hbase, hc, hcs⟩ := h
  exact ⟨c, cs ++ number.toList, by rw [String.toList_append, hbase, List.cons_append], hc,
    List.forall_mem_append.2 ⟨hcs, hnumber⟩⟩

/-- The name made from a text is a field name, whatever the text is. -/
theorem isFieldName_fieldSlug (label : String) (index : Nat) :
    IsFieldName (fieldSlug label index) := by
  simp only [fieldSlug]
  split
  · next halpha =>
    obtain ⟨c, hhead, hc⟩ := (Option.any_eq_true _ _).1 halpha
    obtain ⟨cs, hname⟩ := List.head?_eq_some_iff.1 hhead
    have hchars := List.forall_mem_cons.1 (hname ▸ Text.isAlphanum_of_mem_camelCase)
    exact ⟨c, cs, by rw [String.toList_ofList, hname], hc, hchars.2⟩
  · -- Without a letter in front the name is a word with the position of the text.
    have hword : IsFieldName "field" := ⟨'f', "ield".toList, rfl, rfl, List.all_eq_true.1 rfl⟩
    exact hword.append fun _ => Text.isAlphanum_of_mem_toString

/-- Each name that is tried for a field is a field name. -/
theorem IsFieldName.candidate {base : String} (h : IsFieldName base) (n : Nat) :
    IsFieldName (Text.candidate base n) := by
  rcases Text.candidate_eq base n with heq | ⟨m, -, heq⟩
  · rwa [heq]
  · rw [heq]
    exact h.append fun _ => Text.isAlphanum_of_mem_toString

theorem IsFieldName.freshName {base : String} (h : IsFieldName base) (taken : List String) :
    IsFieldName (Text.freshName taken base) := by
  obtain ⟨n, -, hbefore, hfree⟩ := Text.exists_first_candidate taken.toFinset base
  have hname := Names.name_acquire_eq_freshName taken base
  rw [Names.acquire_eq_some hbefore hfree, Option.map_some] at hname
  rw [← Option.some.inj hname]
  exact h.candidate n

/-! ### Fields -/

theorem length_inputFields (taken : List String) (index : Nat) (labels : List String) :
    (inputFields taken index labels).length = labels.length := by
  induction labels generalizing taken index with
  | nil => rfl
  | cons label labels ih => rw [inputFields, List.length_cons, ih, List.length_cons]

/-- Each label has its field. The search for its name starts at the name made from the label, and
the names of the fields before it are taken. -/
theorem exists_field (taken : List String) (index : Nat) {labels : List String} {i : Nat}
    {label : String} (h : labels[i]? = some label) :
    ∃ f, (inputFields taken index labels)[i]? = some f ∧ f.AsksFor label (index + i) ∧
      f.name = Text.freshName
        ((((inputFields taken index labels).take i).map Field.name).reverse ++ taken)
        (fieldSlug label (index + i)) := by
  induction labels generalizing taken index i with
  | nil => simp at h
  | cons first labels ih =>
    cases i with
    | zero =>
      obtain rfl := Option.some.inj h
      exact ⟨_, rfl, ⟨rfl, rfl, rfl⟩, rfl⟩
    | succ i =>
      obtain ⟨f, hf, hasks, hname⟩ :=
        ih (Text.freshName taken (fieldSlug first index) :: taken) (index + 1) h
      rw [Nat.add_right_comm] at hasks hname
      refine ⟨f, hf, hasks, ?_⟩
      rw [hname, inputFields, List.take_succ_cons, List.map_cons, List.reverse_cons,
        List.append_assoc, List.singleton_append]
      rfl

theorem isFieldName_of_mem_inputFields {taken : List String} {index : Nat} {labels : List String}
    {f : Field} (h : f ∈ inputFields taken index labels) : IsFieldName f.name := by
  induction labels generalizing taken index with
  | nil => cases h
  | cons label labels ih =>
    rcases List.mem_cons.1 h with rfl | h
    · exact (isFieldName_fieldSlug label index).freshName taken
    · exact ih h

/-! ### The form -/

/-- A form made from texts has one input for each of them, in their order, under different names
that are field names; each name is the one that the search finds when the names of the earlier
inputs are taken. For every base and every finite set of taken names the search ends: after at most
as many failures as there are taken names, with a free name, which is the base or the base with a
decimal number after it, and with exactly this name taken besides the others. The number that it
counts is never beyond the number of failures by more than two. -/
theorem inputForm_asksForEach :
    (∀ texts : List Element, ∃ fields,
      inputForm (texts.map Element.textContent) =
        .form "generatedForm" fields none (formStyle "#f9fafb") ∧
      fields.length = texts.length ∧
      (∀ i text, texts[i]? = some text → ∃ f found, fields[i]? = some f ∧
        f.AsksFor text.textContent i ∧
        Names.acquire ((fields.take i).map Field.name).toFinset (fieldSlug text.textContent i) =
          some found ∧
        f.name = found.name) ∧
      (fields.map Field.name).Nodup ∧
      ∀ f ∈ fields, IsFieldName f.name) ∧
    ∀ (taken : Names) (base : String), ∃ found, taken.acquire base = some found ∧
      found.failures ≤ taken.card ∧
      found.next = found.failures + 2 ∧
      found.name ∉ taken ∧
      (found.name = base ∨ ∃ n, 2 ≤ n ∧ found.name = base ++ toString n) ∧
      found.taken = insert found.name taken := by
  constructor
  · intro texts
    refine ⟨inputFields [] 0 (texts.map Element.textContent), rfl, ?_, ?_, ?_, ?_⟩
    · rw [length_inputFields, List.length_map]
    · intro i text htext
      have hlabel : (texts.map Element.textContent)[i]? = some text.textContent := by
        rw [List.getElem?_map, htext, Option.map_some]
      obtain ⟨f, hf, hasks, hname⟩ := exists_field [] 0 hlabel
      rw [Nat.zero_add] at hasks hname
      -- The earlier names were collected in reverse; as a set they are the same.
      rw [← Option.some_inj, ← Names.name_acquire_eq_freshName, List.append_nil,
        List.toFinset_reverse] at hname
      obtain ⟨found, hfound, heq⟩ := Option.map_eq_some_iff.1 hname.symm
      exact ⟨f, found, hf, hasks, hfound, heq.symm⟩
    · rw [← filterMap_controlName?_inputFields]
      exact (nodup_inputFields [] 0 _).1
    · intro f hf
      exact isFieldName_of_mem_inputFields hf
  · intro taken base
    obtain ⟨n, hcard, hbefore, hfree⟩ := Text.exists_first_candidate taken base
    exact ⟨_, Names.acquire_eq_some hbefore hfree, hcard, rfl, hfree, Text.candidate_eq base n, rfl⟩

/-- The texts `Email 2`, `email`, `EMAIL`, `field4` and one without ASCII letters. -/
def collidingTexts : List Element :=
  ["Email 2", "email", "EMAIL", "field4", "名前"].map fun content =>
    { name := "text", attributes := [], children := [.text content] }

/-- The third text meets the name that the first one has without any collision. -/
theorem inputForm_asksForEach_collidingTexts :
    (∃ text, collidingTexts[2]? = some text ∧ text.textContent = "EMAIL") ∧
      ∃ fields f, inputForm (collidingTexts.map Element.textContent) =
          .form "generatedForm" fields none (formStyle "#f9fafb") ∧
        fields[2]? = some f ∧ f.AsksFor "EMAIL" 2 ∧ (fields.map Field.name).Nodup ∧
        fields.map Field.name = ["email2", "email", "email3", "field4", "field42"] := by
  refine ⟨⟨_, rfl, by decide⟩, ?_⟩
  obtain ⟨fields, hform, -, hfields, hnodup, -⟩ := inputForm_asksForEach.1 collidingTexts
  obtain ⟨f, found, hf, hasks, -⟩ := hfields 2 _ rfl
  refine ⟨fields, f, hform, hf, hasks, hnodup, ?_⟩
  cases hform
  decide

end Mockup.Ui
