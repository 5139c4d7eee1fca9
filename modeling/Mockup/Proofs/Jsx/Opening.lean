import Mathlib.Data.List.Induction
import Mockup.Proofs.Jsx.Recorded

/-!
# Where elements open

Every element that a scan records was opened by an angle bracket: right after the bracket the scan
was in a situation that knows its place, and the next character began the element.

* `s.angle?` — the place of an angle bracket that was just read, with what would wait for its
  element.
* `OpensAt source place` — at a place of a text an angle bracket opens an element.

## Main results

* `Move.places_or`: a move begins no element, or one at an angle bracket.
* `opensAt_of_reached`, `opensAt_of_scan`: every element that was begun, and every element of a
  text, opens at its place.
-/

namespace Mockup.Jsx

open Text (HasAt)

/-! ### Where elements open -/

/-- The place of an angle bracket that was just read, with what would wait for its element. -/
def Situation.angle? : Situation → Option (Nat × List Context)
  | ⟨.script s (.angle start), outer⟩ => some (start, .script s :: outer)
  | ⟨.content e (.angle start), outer⟩ => some (start, .content e :: outer)
  | _ => none

/-- At a place of a text, an angle bracket opens an element. -/
def OpensAt (source : List Char) (place : Nat) : Prop :=
  ∃ before c rest s base, source = before ++ '<' :: c :: rest ∧ Text.byteLength before = place ∧
    Reached (before ++ ['<']) s ∧ s.angle? = some (place, base) ∧ opensElement c = true

theorem OpensAt.append_right {source : List Char} {place : Nat} (h : OpensAt source place)
    (more : List Char) : OpensAt (source ++ more) place := by
  obtain ⟨before, c, rest, s, base, rfl, h⟩ := h
  exact ⟨before, c, rest ++ more, s, base, by simp, h⟩

section Angle

variable {here : Cursor} {c : Char} {s : Situation} {start : Nat} {base : List Context}

/-- After an angle bracket, an element is read. -/
theorem Situation.read_of_angle? (h : s.angle? = some (start, base)) (hc : opensElement c = true)
    (here : Cursor) : s.read here c = Situation.read ⟨.tag { start } .name, base⟩ here c := by
  unfold Situation.angle? at h
  split at h
  · cases h
    simp [Situation.read, Script.read, hc]
  · cases h
    have hslash : c ≠ '/' := by
      rintro rfl
      cases hc
    simp [Situation.read, OpenElement.read, hc, hslash]
  · cases h

/-- An angle bracket that was just read is the last character. -/
theorem Situation.Sound.of_angle? (sound : s.Sound here) (h : s.angle? = some (start, base)) :
    ∃ before, here.passed = before ++ ['<'] ∧ Text.byteLength before = start := by
  have hlast (hat : HasAt here.passed start ['<']) (hoffset : here.offset = start + 1) :
      ∃ before, here.passed = before ++ ['<'] ∧ Text.byteLength before = start := by
    obtain ⟨before, after, hpassed, rfl⟩ := hat
    have hempty : after = [] := by
      refine Text.eq_nil_of_byteLength_eq_zero ?_
      have hmark : Text.byteLength ['<'] = 1 := rfl
      rw [here.offset_eq_byteLength, hpassed, Text.byteLength_append, Text.byteLength_append]
        at hoffset
      omega
    exact ⟨before, by rw [hpassed, hempty, List.append_nil], rfl⟩
  -- Only a script and a content wait for what an angle bracket opens.
  unfold Situation.angle? at h
  split at h
  · cases h
    cases sound with
    | script _ _ angle => exact hlast (angle _ rfl).2.1 (angle _ rfl).2.2
  · cases h
    cases sound with
    | content _ _ angle => exact hlast (angle _ rfl).2.1 (angle _ rfl).2.2
  · cases h

end Angle

/-- The places of the elements that were begun. -/
def Situation.places (s : Situation) : List Nat :=
  s.records.map Record.start

section Places

variable {here : Cursor} {c : Char} {t : OpenTag} {outer : List Context} {s s' : Situation}

/-- A further attribute leaves an opening tag in its place. -/
theorem OpenTag.starts_addAttribute (t : OpenTag) (a : OpenAttribute) (stop : Nat)
    (value : Option Value) :
    (t.addAttribute a stop value).records.map Record.start = t.records.map Record.start := rfl

theorem OpenTag.NextAfterName.places_eq {a : OpenAttribute} {stop : Nat}
    (h : t.NextAfterName a stop outer here c s) :
    s.places = (recordsOfOuter outer ++ t.records).map Record.start := by
  cases h with
  | blank | equals => rfl
  | commit _ _ next =>
    rw [Situation.places, next.records_eq, List.map_append, OpenTag.starts_addAttribute,
      ← List.map_append]

theorem LeftBraces.places_eq {script : Script} (h : LeftBraces here script outer s) :
    s.places = (recordsOfOuter outer ++ records script.found).map Record.start := by
  cases h <;>
    simp [Situation.places, Situation.records, recordsOfOuter, Context.records, Focus.records,
      OpenElement.add, OpenTag.starts_addAttribute]

/-- A move begins no element, or one at an angle bracket that was just read. -/
theorem Move.places_or (m : Move here c s s') : s'.places = s.places ∨
    ∃ start base, s'.places = s.places ++ [start] ∧ s.angle? = some (start, base) ∧
      opensElement c = true := by
  -- Two moves begin an element. The others change what is recorded of those that were begun.
  cases m with
  | script found | enterTemplate found =>
    left
    simp [Situation.places, Situation.records, recordsOfOuter, Context.records, Focus.records,
      found]
  | leaveBraces _ found left =>
    left
    rw [left.places_eq, found]
    rfl
  | scriptElement hc next | contentElement hc next =>
    right
    refine ⟨_, _, ?_, rfl, hc⟩
    rw [Situation.places, next.records_eq, List.map_append]
    simp [OpenTag.records]
    rfl
  | template | «attribute» | equals | quote | quoted | content => exact .inl rfl
  | enterSubstitution | enterValue | enterBraces =>
    left
    simp [Situation.places, Situation.records, recordsOfOuter, Context.records, Focus.records]
  | leaveTemplate left =>
    left
    rw [Situation.places, left.records_eq]
    rfl
  | name next =>
    left
    rw [Situation.places, next.records_eq]
    rfl
  | tag next =>
    left
    rw [Situation.places, next.records_eq]
    rfl
  | selfClose _ left | close _ left =>
    left
    rw [Situation.places, left.records_eq, records_element]
    rfl
  | attributeName _ next | gap next => exact .inl next.places_eq
  | unquote =>
    left
    simp [Situation.places, Situation.records, Focus.records, OpenTag.starts_addAttribute]

end Places

/-- Every element that was begun opens where it was begun. -/
theorem opensAt_of_reached {cs : List Char} {s : Situation} (h : Reached cs s) :
    ∀ place ∈ s.places, OpensAt cs place := by
  induction cs using List.reverseRecOn generalizing s with
  | nil =>
    obtain rfl := h.unique (.nil _ _)
    simp [Situation.places, Situation.records, recordsOfOuter, Focus.records]
  | append_singleton cs c ih =>
    obtain ⟨m, hm, hlast⟩ := Situation.Reads.of_append h
    obtain ⟨s', hread, hnil⟩ := hlast.of_cons
    obtain rfl := hnil.unique (.nil _ _)
    intro place hplace
    -- The last character begins no element, or the one whose bracket came right before it.
    rcases (Move.of_read hread).places_or with heq | ⟨start, base, heq, hangle, hc⟩
    · rw [heq] at hplace
      exact (ih hm place hplace).append_right [c]
    rw [heq, List.mem_append, List.mem_singleton] at hplace
    rcases hplace with hplace | rfl
    · exact (ih hm place hplace).append_right [c]
    · obtain ⟨before, hbefore, hlen⟩ := (Reached.sound hm).of_angle? hangle
      rw [Cursor.passed_after_start] at hbefore
      exact ⟨before, c, [], m, base, by simp [hbefore], hlen, hbefore ▸ hm, hangle, hc⟩

/-- Every element of a text opens at its place. -/
theorem opensAt_of_scan {source : List Char} {es : List Element} {e : Element}
    (h : scan source = .ok es) (he : e ∈ Element.walkAll es) : OpensAt source e.start := by
  obtain ⟨here, script, part, hrun, -, -, rfl⟩ := scan_eq_ok_iff.1 h
  obtain ⟨hreads, -⟩ := Situation.reads_of_run hrun
  refine opensAt_of_reached hreads _ ?_
  simp only [Situation.places, Situation.records, recordsOfOuter, Focus.records, records,
    List.nil_append, List.map_map]
  exact List.mem_map_of_mem he

end Mockup.Jsx
