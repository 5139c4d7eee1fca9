import Mockup.Jsx.Escape
import Mockup.Proofs.Jsx.Balanced
import Mockup.Proofs.Text.Words

/-!
# Reading literals

A text that is written as the value of an attribute is read as that value, and the value stands for
the text.

## Main results

* `text?_literalValue`: the value of a written text stands for that text.
* `writes_braced`: a balanced text in braces is the value of an attribute.
* `writes_literal`: a written text completes the attribute that waits for it.
* `Situation.Settles.reads_attribute`: a further attribute with a value.
-/

namespace Mockup.Jsx

/-! ### Values -/

/-- The value that a written text is read as. -/
def literalValue (cs : List Char) : Value :=
  if cs.any needsBraces then .braced (Json.quoted cs) else .quoted cs

/-- A quoted string stands for the string. -/
@[simp]
theorem loneText?_quoted (cs : List Char) : loneText? (Json.quoted cs) = some cs := by
  unfold loneText? Json.quoted
  rw [Text.trimmed_marked (by decide)]
  simp only [Json.unquote?_escapedAll]

/-- The value of a written text stands for that text. -/
@[simp]
theorem text?_literalValue (cs : List Char) : (literalValue cs).text? = some cs := by
  unfold literalValue
  split
  · exact loneText?_quoted cs
  · rfl

/-! ### Attribute values -/

/-- A text after the equals sign of an attribute completes the attribute with a value. -/
def Writes (text : List Char) (value : Value) : Prop :=
  ∀ (t : OpenTag) (a : OpenAttribute) (outer : List Context) (here : Cursor),
    Situation.Reads ⟨.tag t (.equals a), outer⟩ here text
      ⟨.tag (t.addAttribute a (here.after text).offset (some value)) .between, outer⟩

/-- A text between plain quotes that holds no quote completes the attribute that waits for it. -/
theorem writes_plainQuotes {cs : List Char} (h : '"' ∉ cs) :
    Writes ('"' :: (cs ++ ['"'])) (.quoted cs) := by
  intro t a outer here
  have enter : Situation.read ⟨.tag t (.equals a), outer⟩ here '"' =
      .ok ⟨.tag t (.quoted a '"' here.offset), outer⟩ := rfl
  refine .cons enter ((Situation.Reads.repeated fun c hc there => ?_).append (.single ?_))
  · have hquote : c ≠ '"' := fun heq => h (heq ▸ hc)
    simp [Situation.read, OpenTag.read, OpenTag.goOn, hquote]
  · have hsince : ((here.advance '"').after cs).since (here.offset + 1) = cs :=
      Cursor.since_after_mark here (by decide) cs
    simp only [Situation.read, OpenTag.read, OpenTag.goOn, hsince]
    simp
    rfl

/-- A balanced text in braces completes the attribute that waits for it. -/
theorem writes_braced {cs : List Char} (h : Balanced cs) :
    Writes ('\x7b' :: (cs ++ ['\x7d'])) (.braced cs) := by
  intro t a outer here
  have enter : Situation.read ⟨.tag t (.equals a), outer⟩ here '\x7b' =
      .ok ⟨.script {} .between, .tag t (some (a, here.offset)) :: outer⟩ := rfl
  obtain ⟨m, hm, hcalm⟩ := h [] [] (.tag t (some (a, here.offset)) :: outer) _
    (here.advance '\x7b') (calm_between {} _)
  obtain ⟨previous, hread⟩ := hcalm.read_eq (c := '\x7d') ((here.advance '\x7b').after cs)
    (by decide)
  refine .cons enter (hm.append (.single ?_))
  -- The value is the text since the opening brace, and nothing was found in it.
  have hsince : ((here.advance '\x7b').after cs).since (here.offset + 1) = cs :=
    Cursor.since_after_mark here (by decide) cs
  rw [hread]
  simp only [Script.readBetween, Script.readClosing, leaveBraces, OpenTag.add, OpenTag.goOn, hsince]
  simp [isClosing]
  rfl

/-- A written text completes the attribute that waits for it. -/
theorem writes_literal (cs : List Char) : Writes (literal cs) (literalValue cs) := by
  unfold literal literalValue
  by_cases hbraces : cs.any needsBraces = true
  · rw [if_pos hbraces, if_pos hbraces]
    exact writes_braced (.quoted cs)
  · rw [if_neg hbraces, if_neg hbraces]
    refine writes_plainQuotes fun hquote => hbraces ?_
    exact List.any_eq_true.2 ⟨_, hquote, by decide⟩

/-! ### Opening tags -/

/-- What holds of a character of an attribute name, and what such a character is not. -/
theorem isAttributeChar_ne {c d : Char} (h : isAttributeChar c = true)
    (hd : isAttributeChar d = false) : c ≠ d := by
  rintro rfl
  simp [h] at hd

/-- A character of an attribute name is no blank. -/
theorem isAsciiBlank_of_isAttributeChar {c : Char} (h : isAttributeChar c = true) :
    Text.isAsciiBlank c = false := by
  simp [Text.isAsciiBlank, isAttributeChar_ne h (d := ' ') (by decide),
    isAttributeChar_ne h (d := '\t') (by decide), isAttributeChar_ne h (d := '\n') (by decide),
    isAttributeChar_ne h (d := '\x0c') (by decide), isAttributeChar_ne h (d := '\r') (by decide)]

/-- What is being read of an opening tag may end here: what follows, at once or after a space, is
read as what follows the parts of `t`. -/
structure Situation.Settles (s : Situation) (here : Cursor) (t : OpenTag) (outer : List Context) :
    Prop where
  /-- The end of the tag may follow. -/
  close : s.read here '>' = t.readBetween outer here '>'
  /-- A space may follow, and after it a further part. -/
  gap : ∃ m : Situation, s.read here ' ' = .ok m ∧ ∀ (there : Cursor) (c : Char),
    Text.isAsciiBlank c = false → c ≠ '=' → m.read there c = t.readBetween outer there c

section Settles

variable {s : Situation} {t : OpenTag} {outer : List Context} {here : Cursor}

/-- Nothing is open between two parts of a tag. -/
theorem settles_between : Situation.Settles ⟨.tag t .between, outer⟩ here t outer where
  close := rfl
  gap := ⟨⟨.tag t .between, outer⟩, rfl, fun _ _ _ _ => rfl⟩

/-- The name of a tag ends where something else begins. -/
theorem settles_name {start : Nat} {tag : List Char} (h : here.since (start + 1) = tag) :
    Situation.Settles ⟨.tag { start } .name, outer⟩ here
      { start, name := String.ofList tag, nameEnd := here.offset } outer := by
  subst h
  exact ⟨rfl, _, rfl, fun _ _ _ _ => rfl⟩

/-- The name of an attribute ends where something else begins, and then the attribute has no
value. -/
theorem settles_attribute {start : Nat} {name : List Char} (h : here.since start = name) :
    Situation.Settles ⟨.tag t (.attribute start), outer⟩ here
      (t.addAttribute ⟨String.ofList name, start⟩ here.offset none) outer := by
  subst h
  refine ⟨rfl, _, rfl, fun there c hblank hequals => ?_⟩
  simp [Situation.read, OpenTag.read, OpenTag.readGap, hblank, hequals]

/-- The name of a further attribute. -/
theorem Situation.Settles.reads_name (h : s.Settles here t outer) {name : List Char}
    (hne : name ≠ []) (hname : ∀ c ∈ name, isAttributeChar c = true) :
    s.Reads here (' ' :: name) ⟨.tag t (.attribute (here.offset + 1)), outer⟩ := by
  obtain ⟨m, hspace, hnext⟩ := h.gap
  obtain ⟨c, cs, rfl⟩ := List.exists_cons_of_ne_nil hne
  have hc := hname c List.mem_cons_self
  have hsize : ' '.utf8Size = 1 := by decide
  refine .cons hspace (.cons ?_ (.repeated fun d hd there => ?_))
  · rw [hnext _ c (isAsciiBlank_of_isAttributeChar hc) (isAttributeChar_ne hc (by decide))]
    simp [OpenTag.readBetween, OpenTag.goOn, isAsciiBlank_of_isAttributeChar hc, hc,
      isAttributeChar_ne hc (d := '/') (by decide), isAttributeChar_ne hc (d := '>') (by decide),
      isAttributeChar_ne hc (d := '\x7b') (by decide), hsize]
  · have hd := hname d (List.mem_cons_of_mem _ hd)
    simp [Situation.read, OpenTag.read, OpenTag.goOn, hd]

/-- The name of an attribute and an equals sign make the attribute wait for its value. -/
theorem reads_equals {start : Nat} {name : List Char} (h : here.since start = name) :
    Situation.Reads ⟨.tag t (.attribute start), outer⟩ here ['=']
      ⟨.tag t (.equals ⟨String.ofList name, start⟩), outer⟩ := by
  subst h
  exact .single rfl

/-- The name of an attribute, an equals sign and a value make an attribute. -/
theorem Writes.reads_value {text : List Char} {value : Value} (h : Writes text value) {start : Nat}
    {name : List Char} (hname : here.since start = name) :
    Situation.Reads ⟨.tag t (.attribute start), outer⟩ here ('=' :: text)
      ⟨.tag (t.addAttribute ⟨String.ofList name, start⟩ (here.after ('=' :: text)).offset
        (some value)) .between, outer⟩ := by
  have hvalue := h t ⟨String.ofList name, start⟩ outer (here.advance '=')
  exact (reads_equals hname).append hvalue

/-- A further attribute with a value. -/
theorem Situation.Settles.reads_attribute (h : s.Settles here t outer) {name : List Char}
    (hne : name ≠ []) (hname : ∀ c ∈ name, isAttributeChar c = true) {text : List Char}
    {value : Value} (hvalue : Writes text value) :
    s.Reads here (' ' :: (name ++ '=' :: text))
      ⟨.tag (t.addAttribute ⟨String.ofList name, here.offset + 1⟩
        (here.after (' ' :: (name ++ '=' :: text))).offset (some value)) .between, outer⟩ := by
  have hsince : (here.after (' ' :: name)).since (here.offset + 1) = name :=
    Cursor.since_after_mark here (by decide) name
  have hwhole := (h.reads_name hne hname).append (hvalue.reads_value hsince)
  simpa using hwhole

end Settles

end Mockup.Jsx
