import Mathlib.Data.List.Induction
import Mockup.Proofs.Jsx.Recorded

/-!
# Where braces were read

An attribute whose value is code was read up to the brace that closes the code: in the text, the
braces with the code between them end where the attribute ends.

* `s.attributes` — all attributes that a situation records, in document order of their elements.
* `Braced source a cs` — the braces with `cs` in them stand at the end of an attribute.

## Main results

* `Move.mem_attributes`: a move that records code as a value closes the braces around it.
* `braced_of_reached`, `braced_of_scan`: the braces of every value stand in the text.
-/

namespace Mockup.Jsx

open Text (HasAt byteLength)

/-! ### Attributes that are recorded -/

/-- The attributes of records. -/
def recordedIn (rs : List Record) : List Attribute :=
  rs.flatMap Record.attributes

/-- The attributes that are recorded. -/
def Situation.attributes (s : Situation) : List Attribute :=
  recordedIn s.records

@[simp]
theorem recordedIn_append (rs rs' : List Record) :
    recordedIn (rs ++ rs') = recordedIn rs ++ recordedIn rs' := by
  simp [recordedIn]

/-- The attribute of an opening tag whose value was just read is recorded, and nothing else. -/
theorem OpenTag.mem_recordedIn_addAttribute {t : OpenTag} {a : OpenAttribute} {stop : Nat}
    {value : Option Value} {b : Attribute}
    (h : b ∈ recordedIn (t.addAttribute a stop value).records) :
    b ∈ recordedIn t.records ∨ b = ⟨a.name, a.start, stop, value⟩ := by
  simp only [recordedIn, OpenTag.records, OpenTag.addAttribute, List.flatMap_cons,
    List.mem_append, List.mem_singleton] at h ⊢
  tauto

/-- An attribute without code is recorded, or one that was recorded before. -/
def Uncoded (before : List Attribute) (a : Attribute) : Prop :=
  a ∈ before ∨ ∀ cs, a.value ≠ some (.braced cs)

/-- A brace closes the code in the value of an attribute. -/
inductive ClosesValue (here : Cursor) (c : Char) : Situation → Attribute → Prop
  | intro {script : Script} {part : Script.Part} {t : OpenTag} {a : OpenAttribute} {start : Nat}
    {outer : List Context} (brace : c = '\x7d') :
    ClosesValue here c ⟨.script script part, .tag t (some (a, start)) :: outer⟩
      ⟨a.name, a.start, here.offset + 1, some (.braced (here.since (start + 1)))⟩

section Move

variable {here : Cursor} {c : Char} {t : OpenTag} {outer : List Context} {s s' : Situation}
  {a : Attribute}

theorem OpenTag.NextAfterName.mem_attributes {o : OpenAttribute} {stop : Nat}
    (h : t.NextAfterName o stop outer here c s) (ha : a ∈ s.attributes) :
    Uncoded (recordedIn (recordsOfOuter outer ++ t.records)) a := by
  cases h with
  | blank | equals => exact .inl ha
  | commit _ _ next =>
    rw [Situation.attributes, next.records_eq, recordedIn_append, List.mem_append] at ha
    rw [recordedIn_append]
    rcases ha with ha | ha
    · exact .inl (List.mem_append_left _ ha)
    · rcases t.mem_recordedIn_addAttribute ha with ha | rfl
      · exact .inl (List.mem_append_right _ ha)
      · exact .inr (by simp)

/-- Leaving the braces of a value records the code in them. -/
theorem LeftBraces.mem_attributes {script : Script} (part : Script.Part) (hc : c = '\x7d')
    (h : LeftBraces here script outer s) (ha : a ∈ s.attributes) :
    a ∈ recordedIn (recordsOfOuter outer ++ records script.found) ∨
      ClosesValue here c ⟨.script script part, outer⟩ a := by
  cases h with
  | template | tag | content =>
    left
    simpa [Situation.attributes, Situation.records, recordsOfOuter, Context.records, Focus.records,
      OpenElement.add, or_assoc] using ha
  | value t o start outer =>
    rw [Situation.attributes, Situation.records, recordedIn_append, List.mem_append] at ha
    rcases ha with ha | ha
    · left
      simp [recordsOfOuter, ha]
    · rcases OpenTag.mem_recordedIn_addAttribute ha with ha | rfl
      · left
        rw [OpenTag.records_add, recordedIn_append, List.mem_append] at ha
        simpa [recordsOfOuter, Context.records, or_assoc] using .inr ha
      · exact .inr (.intro hc)

/-- A move that records code as the value of an attribute closes the braces around it. -/
theorem Move.mem_attributes (m : Move here c s s') (ha : a ∈ s'.attributes) :
    Uncoded s.attributes a ∨ ClosesValue here c s a := by
  have kept (h : s'.records = s.records) : Uncoded s.attributes a ∨ ClosesValue here c s a := by
    rw [Situation.attributes, h] at ha
    exact .inl (.inl ha)
  cases m with
  | script found | enterTemplate found =>
    apply kept
    simp [Situation.records, recordsOfOuter, Context.records, Focus.records, found]
  | @leaveBraces script script' part outer _ hc found left =>
    rcases left.mem_attributes part hc ha with ha | hcloses
    · rw [found] at ha
      exact .inl (.inl ha)
    · cases hcloses
      exact .inr (.intro hc)
  | scriptElement _ next | contentElement _ next =>
    -- The element that begins has no attributes.
    rw [Situation.attributes, next.records_eq, recordedIn_append, List.mem_append] at ha
    exact .inl (.inl (ha.elim id fun hnone => by simp [recordedIn, OpenTag.records] at hnone))
  | template | «attribute» | equals | quote | quoted | content => exact kept rfl
  | enterSubstitution | enterValue | enterBraces =>
    apply kept
    simp [Situation.records, recordsOfOuter, Context.records, Focus.records]
  | leaveTemplate left => exact kept left.records_eq
  | name next => exact kept next.records_eq
  | tag next => exact kept next.records_eq
  | selfClose _ left | close _ left =>
    apply kept
    rw [left.records_eq, records_element]
    rfl
  | attributeName _ next | gap next => exact .inl (next.mem_attributes ha)
  | unquote =>
    rw [Situation.attributes, Situation.records, recordedIn_append, List.mem_append] at ha
    rcases ha with ha | ha
    · exact .inl (.inl (by simp [Situation.attributes, Situation.records, ha]))
    · rcases OpenTag.mem_recordedIn_addAttribute ha with ha | rfl
      · exact .inl (.inl (by simp [Situation.attributes, Situation.records, Focus.records, ha]))
      · exact .inl (.inr (by simp))

end Move

/-! ### Braces in a text -/

/-- The braces with `cs` in them stand at the end of an attribute. -/
def Braced (source : List Char) (a : Attribute) (cs : List Char) : Prop :=
  ∃ start, HasAt source start ('\x7b' :: (cs ++ ['\x7d'])) ∧ start + byteLength cs + 2 = a.stop

theorem Braced.append_right {source : List Char} {a : Attribute} {cs : List Char}
    (h : Braced source a cs) (more : List Char) : Braced (source ++ more) a cs := by
  obtain ⟨start, hat, hstop⟩ := h
  exact ⟨start, hat.append_right more, hstop⟩

/-- Where the braces of a value are closed, they stand in the text with the code between them. -/
theorem ClosesValue.braced {before cs : List Char} {c : Char} {s : Situation} {a : Attribute}
    (h : ClosesValue (Cursor.start.after before) c s a) (reached : Reached before s)
    (hvalue : a.value = some (.braced cs)) : Braced (before ++ [c]) a cs := by
  cases h with
  | intro hc =>
    cases Scan.headed_of_run reached with
    | script _ waiting =>
      cases waiting with
      | value _ _ opened _ =>
        -- The tag that waits remembers where its braces were opened.
        obtain ⟨front, inner, rfl, rfl, -⟩ := opened
        have hsince := (Cursor.start.after (front ++ '\x7b' :: inner)).since_brace
          (Cursor.passed_after_start _)
        obtain rfl : inner = cs := by
          rw [← hsince]
          simpa using hvalue
        refine ⟨byteLength front, ⟨front, [], by simp [hc], rfl⟩, ?_⟩
        have hsize : '\x7b'.utf8Size = 1 := rfl
        simp only [Cursor.offset_after_start, Text.byteLength_append, Text.byteLength_cons, hsize]
        omega

/-- The braces of every value that was read stand in the text. -/
theorem braced_of_reached {cs : List Char} {s : Situation} (h : Reached cs s) :
    ∀ a ∈ s.attributes, ∀ code, a.value = some (.braced code) → Braced cs a code := by
  -- The induction follows the text as it is read: the last character either closes the braces or
  -- adds no code to what is recorded.
  induction cs using List.reverseRecOn generalizing s with
  | nil =>
    obtain rfl := h.unique (.nil _ _)
    simp [Situation.attributes, Situation.records, recordsOfOuter, Focus.records, recordedIn]
  | append_singleton cs c ih =>
    obtain ⟨m, hm, hlast⟩ := Situation.Reads.of_append h
    obtain ⟨s', hread, hnil⟩ := hlast.of_cons
    obtain rfl := hnil.unique (.nil _ _)
    intro a ha code hvalue
    rcases (Move.of_read hread).mem_attributes ha with (hold | hnone) | hcloses
    · exact (ih hm a hold code hvalue).append_right [c]
    · exact absurd hvalue (hnone code)
    · exact hcloses.braced hm hvalue

/-- The braces of every value stand in the text that is read. -/
theorem braced_of_scan {source code : List Char} {es : List Element} {e : Element} {a : Attribute}
    (h : scan source = .ok es) (he : e ∈ Element.walkAll es) (ha : a ∈ e.attributes)
    (hvalue : a.value = some (.braced code)) : Braced source a code := by
  obtain ⟨here, script, part, hrun, -, -, rfl⟩ := scan_eq_ok_iff.1 h
  obtain ⟨hreads, -⟩ := Situation.reads_of_run hrun
  refine braced_of_reached hreads a ?_ code hvalue
  simp only [Situation.attributes, Situation.records, recordsOfOuter, Focus.records, records,
    List.nil_append, recordedIn, List.flatMap_map]
  exact List.mem_flatMap.2 ⟨e, he, ha⟩

end Mockup.Jsx
