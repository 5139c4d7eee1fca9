import Mockup.Jsx.Scan
import Mockup.Proofs.Jsx.Cursor
import Mockup.Proofs.Jsx.Walk

/-!
# Moved places

What is read further on in a text has all its places moved by the same number of bytes: elements
with their attributes, what a scan has recorded and what it is reading, and the places of errors.

## Main results

* `Element.entriesOfAll_moved`: moved elements have moved entries with the same relations.
* `Cursor.Ahead.since_eq`: what was read since a moved place is the same text.
-/

namespace Mockup.Jsx

/-! ### Elements -/

/-- An attribute `n` bytes further on. -/
def Attribute.moved (n : Nat) (a : Attribute) : Attribute :=
  { a with start := a.start + n, stop := a.stop + n }

namespace Element

mutual

/-- An element `n` bytes further on, with all inside it. -/
def moved (n : Nat) : Element → Element
  | ⟨tag, start, nameEnd, openEnd, stop, attributes, selfClosing, children⟩ =>
    ⟨tag, start + n, nameEnd + n, openEnd + n, stop + n, attributes.map (Attribute.moved n),
      selfClosing, movedAll n children⟩

/-- Several elements `n` bytes further on. -/
def movedAll (n : Nat) : List Element → List Element
  | [] => []
  | e :: es => moved n e :: movedAll n es

end

variable {n i : Nat}

theorem movedAll_eq_map (es : List Element) : movedAll n es = es.map (moved n) := by
  induction es with
  | nil => rw [movedAll, List.map_nil]
  | cons e es ih => rw [movedAll, ih, List.map_cons]

theorem moved_eq (n : Nat) (e : Element) :
    e.moved n = ⟨e.tag, e.start + n, e.nameEnd + n, e.openEnd + n, e.stop + n,
      e.attributes.map (Attribute.moved n), e.selfClosing, e.children.map (moved n)⟩ := by
  cases e
  rw [moved, movedAll_eq_map]

@[simp]
theorem start_moved (e : Element) : (e.moved n).start = e.start + n := by
  rw [moved_eq]

@[simp]
theorem stop_moved (e : Element) : (e.moved n).stop = e.stop + n := by
  rw [moved_eq]

@[simp]
theorem children_moved (e : Element) : (e.moved n).children = e.children.map (moved n) := by
  rw [moved_eq]

/-- A walk through moved elements meets the moved elements of the walk. -/
@[simp]
theorem walkAll_map_moved (es : List Element) :
    walkAll (es.map (moved n)) = (walkAll es).map (moved n) := by
  induction es using forest_induction with
  | nil => simp
  | cons e es ihc ihs => simp [ihc, ihs]

@[simp]
theorem size_moved (e : Element) : (e.moved n).size = e.size := by
  simp [size_eq]

theorem moved_zero (e : Element) : e.moved 0 = e := by
  suffices h : ∀ es : List Element, es.map (moved 0) = es by
    simpa using h [e]
  intro es
  induction es using forest_induction with
  | nil => rfl
  | cons e es ihc ihs =>
    have hattributes : e.attributes.map (Attribute.moved 0) = e.attributes := List.map_id' _
    rw [List.map_cons, ihs, moved_eq, ihc, hattributes]
    cases e
    rfl

/-! ### Entries -/

/-- An entry of elements that stand `n` bytes and `i` positions further on, under a parent. -/
def Entry.moved (n i : Nat) (parent : Option Nat) (x : Entry) : Entry where
  element := x.element.moved n
  parent := (x.parent.map (· + i)).or parent
  children := x.children.map (· + i)

theorem positions_add (first i : Nat) (es : List Element) :
    positions (first + i) es = (positions first es).map (· + i) := by
  induction es generalizing first with
  | nil => rfl
  | cons e es ih => rw [positions, positions, List.map_cons, ← ih, Nat.add_right_comm]

@[simp]
theorem positions_map_moved (first : Nat) (es : List Element) :
    positions first (es.map (moved n)) = positions first es := by
  induction es generalizing first with
  | nil => rfl
  | cons e es ih => rw [List.map_cons, positions, positions, size_moved, ih]

/-- Moved elements have moved entries with the same relations. -/
theorem entriesOfAll_moved (p parent : Option Nat) (index : Nat) (es : List Element) :
    entriesOfAll ((p.map (· + i)).or parent) (index + i) (es.map (moved n)) =
      (entriesOfAll p index es).map (Entry.moved n i parent) := by
  induction es using forest_induction generalizing p index with
  | nil => simp
  | cons e es ihc ihs =>
    have hchildren := ihc (some index) (index + 1)
    have hothers := ihs p (index + e.size)
    rw [Nat.add_right_comm] at hchildren hothers
    simp only [List.map_cons, entriesOfAll_cons, List.map_append, children_moved, size_moved,
      ← hothers, ← hchildren]
    rw [positions_map_moved, Nat.add_right_comm, positions_add]
    rfl

end Element

/-! ### What is being read -/

section Moved

variable (n : Nat)

/-- A script `n` bytes further on. -/
def Script.moved (s : Script) : Script :=
  { s with found := s.found.map (Element.moved n) }

/-- A part of a script `n` bytes further on. -/
def Script.Part.moved : Script.Part → Script.Part
  | .between => .between
  | .word start => .word (start + n)
  | .string quote start escaped => .string quote (start + n) escaped
  | .slash start => .slash (start + n)
  | .lineComment => .lineComment
  | .blockComment start starred => .blockComment (start + n) starred
  | .pattern start inClass escaped => .pattern (start + n) inClass escaped
  | .flags => .flags
  | .angle start => .angle (start + n)

/-- A template `n` bytes further on. -/
def Template.moved (t : Template) : Template where
  start := t.start + n
  found := t.found.map (Element.moved n)

/-- An opening tag `n` bytes further on. -/
def OpenTag.moved (t : OpenTag) : OpenTag where
  start := t.start + n
  name := t.name
  nameEnd := t.nameEnd + n
  attributes := t.attributes.map (Attribute.moved n)
  found := t.found.map (Element.moved n)

/-- An attribute whose value is due `n` bytes further on. -/
def OpenAttribute.moved (a : OpenAttribute) : OpenAttribute :=
  { a with start := a.start + n }

/-- A part of an opening tag `n` bytes further on. -/
def OpenTag.Part.moved : OpenTag.Part → OpenTag.Part
  | .name => .name
  | .between => .between
  | .slash start => .slash (start + n)
  | .attribute start => .attribute (start + n)
  | .gap a stop => .gap (a.moved n) (stop + n)
  | .equals a => .equals (a.moved n)
  | .quoted a quote start => .quoted (a.moved n) quote (start + n)

/-- An element whose opening tag is read, `n` bytes further on. -/
def OpenElement.moved (e : OpenElement) : OpenElement where
  tag := e.tag.moved n
  openEnd := e.openEnd + n

/-- A part of a content `n` bytes further on. -/
def OpenElement.Part.moved : OpenElement.Part → OpenElement.Part
  | .between => .between
  | .angle start => .angle (start + n)
  | .closing start => .closing (start + n)

/-- What is being read `n` bytes further on. -/
def Focus.moved : Focus → Focus
  | .script s part => .script (s.moved n) (part.moved n)
  | .template t part => .template (t.moved n) part
  | .tag t part => .tag (t.moved n) (part.moved n)
  | .content e part => .content (e.moved n) (part.moved n)

/-- What waits `n` bytes further on. -/
def Context.moved : Context → Context
  | .script s => .script (s.moved n)
  | .template t => .template (t.moved n)
  | .tag t none => .tag (t.moved n) none
  | .tag t (some (a, start)) => .tag (t.moved n) (some (a.moved n, start + n))
  | .content e => .content (e.moved n)

/-- An error `n` bytes further on. -/
def ScanError.moved (e : ScanError) : ScanError :=
  { e with offset := e.offset + n }

end Moved

section Parts

variable {n : Nat}

theorem Script.afterValue_moved (s : Script) (es : List Element) :
    (s.moved n).afterValue (es.map (Element.moved n)) = (s.afterValue es).moved n := by
  simp [Script.afterValue, Script.moved]

theorem OpenTag.add_moved (t : OpenTag) (es : List Element) :
    (t.moved n).add (es.map (Element.moved n)) = (t.add es).moved n := by
  simp [OpenTag.add, OpenTag.moved]

theorem OpenElement.add_moved (e : OpenElement) (es : List Element) :
    (e.moved n).add (es.map (Element.moved n)) = (e.add es).moved n := by
  simp [OpenElement.add, OpenElement.moved, OpenTag.add_moved]

theorem OpenTag.addAttribute_moved (t : OpenTag) (a : OpenAttribute) (stop : Nat)
    (value : Option Value) :
    (t.moved n).addAttribute (a.moved n) (stop + n) value =
      (t.addAttribute a stop value).moved n := by
  simp [OpenTag.addAttribute, OpenTag.moved, OpenAttribute.moved, Attribute.moved]

theorem OpenTag.element_moved (t : OpenTag) (openEnd stop : Nat) (selfClosing : Bool) :
    (t.moved n).element (openEnd + n) (stop + n) selfClosing =
      (t.element openEnd stop selfClosing).moved n := by
  rw [Element.moved_eq]
  rfl

end Parts

/-! ### Cursors -/

/-- A cursor that has passed `n` bytes more than another one, and then the same text. -/
def Cursor.Ahead (n : Nat) (here here' : Cursor) : Prop :=
  ∃ before, here.passed = before ++ here'.passed ∧ Text.byteLength before = n

namespace Cursor.Ahead

variable {n : Nat} {here here' : Cursor}

theorem refl (here : Cursor) : here.Ahead 0 here :=
  ⟨[], rfl, rfl⟩

theorem advance (h : here.Ahead n here') (c : Char) :
    (here.advance c).Ahead n (here'.advance c) := by
  obtain ⟨before, hpassed, hlen⟩ := h
  exact ⟨before, by simp [hpassed], hlen⟩

theorem offset_eq (h : here.Ahead n here') : here.offset = here'.offset + n := by
  obtain ⟨before, hpassed, rfl⟩ := h
  rw [here.offset_eq_byteLength, hpassed, Text.byteLength_append, here'.offset_eq_byteLength,
    Nat.add_comm]

/-- What was read since a moved place is the same text. -/
theorem since_eq (h : here.Ahead n here') (place : Nat) :
    here.since (place + n) = here'.since place := by
  have hoffset := h.offset_eq
  obtain ⟨before, hpassed, -⟩ := h
  have hbehind : here.behind = here'.behind ++ before.reverse := by
    rw [← List.reverse_reverse here.behind, ← passed, hpassed, List.reverse_append, passed,
      List.reverse_reverse]
  have hlength : here'.offset - place ≤ Text.byteLength here'.behind := by
    rw [← here'.offset_eq]
    exact Nat.sub_le _ _
  rw [since, since, hoffset, Nat.add_sub_add_right, hbehind, Text.takeBytes_append_of_le hlength]

/-- What was read since the place after a moved mark is the same text. -/
theorem since_add_eq (h : here.Ahead n here') (place k : Nat) :
    here.since (place + n + k) = here'.since (place + k) := by
  rw [Nat.add_right_comm, h.since_eq]

end Cursor.Ahead

end Mockup.Jsx
