import Mockup.Proofs.Jsx.Literal
import Mockup.Proofs.Jsx.Nesting

/-!
# Where the parts of an opening tag were read

Every name and every attribute that a scan records was read at a known place of the text: the scan
came through a situation in which the part was being read, and through one in which the part was
complete. `Situation.Headed` says so of all that a situation records, and each move keeps it.

## Main results

* `Situation.Headed.move`: a move keeps what a situation records headed.
* `headed_of_scan`: the elements of a text have their parts where they were read.
-/

namespace Mockup.Jsx

open Text (HasAt IsBoundary InOrder)

/-! ### Places of a text -/

/-- Reading a text from its start leads to a situation. -/
def Reached (cs : List Char) (s : Situation) : Prop :=
  Situation.Reads ⟨.script {} .between, []⟩ .start cs s

/-- What follows is read as what follows the parts of `t`, at once or after blanks. -/
def Situation.Clears (s : Situation) (here : Cursor) (t : OpenTag) (outer : List Context)
    (rest : List Char) : Prop :=
  s = ⟨.tag t .between, outer⟩ ∨ ∃ gap c more m, rest = gap ++ c :: more ∧
    (∀ b ∈ gap, Text.isAsciiBlank b = true) ∧ s.Reads here gap m ∧
    m.read (here.after gap) c = t.readBetween outer (here.after gap) c

/-- Between two texts, a part of an opening tag ends, and the tag has the parts of `t`. -/
structure PartEnd (before rest : List Char) (s : Situation) (t : OpenTag) (outer : List Context) :
    Prop where
  reached : Reached before s
  /-- Something else could follow the part. -/
  settles : s.Settles (Cursor.start.after before) t outer
  /-- What follows the part is `rest`. -/
  clears : s.Clears (Cursor.start.after before) t outer rest
  sound : t.Sound before (Text.byteLength before) (Text.byteLength before)
  stacked : Stacked before t.start outer

/-- At a place of a text, a part of an opening tag ends. -/
def PartEnds (source : List Char) (place : Nat) (t : OpenTag) (outer : List Context) : Prop :=
  ∃ before rest s, source = before ++ rest ∧ Text.byteLength before = place ∧
    PartEnd before rest s t outer

/-- The name of an attribute of an opening tag is read up to some place. -/
def NameReached (source : List Char) (t : OpenTag) (outer : List Context) (a : OpenAttribute) :
    Prop :=
  ∃ before rest, source = before ++ rest ∧ Reached before ⟨.tag t (.attribute a.start), outer⟩ ∧
    (Cursor.start.after before).since a.start = a.name.toList

/-- The name of an attribute ended at a place, and only blanks follow. -/
def NameEnded (source : List Char) (t : OpenTag) (outer : List Context) (a : OpenAttribute)
    (stop : Nat) : Prop :=
  ∃ before gap, source = before ++ gap ∧ Text.byteLength before = stop ∧
    Reached before ⟨.tag t (.attribute a.start), outer⟩ ∧
    (Cursor.start.after before).since a.start = a.name.toList ∧
    ∀ b ∈ gap, Text.isAsciiBlank b = true

/-- The braces for the value of an attribute opened at a place. -/
def BracesOpened (source : List Char) (t : OpenTag) (outer : List Context) (a : OpenAttribute)
    (start : Nat) : Prop :=
  ∃ before rest, source = before ++ '\x7b' :: rest ∧ Text.byteLength before = start ∧
    Reached before ⟨.tag t (.equals a), outer⟩

/-- The elements inside a value are those that were found when the text in its braces was read. -/
def ValueRead (t : OpenTag) (outer : List Context) (a : OpenAttribute) (inside : List Element) :
    Option Value → Prop
  | some (.braced s) => ∃ (start : Nat) (there : Cursor) (script : Script) (part : Script.Part),
    script.found = inside ∧
      Situation.Reads ⟨.script {} .between, .tag t (some (a, start)) :: outer⟩ there s
        ⟨.script script part, .tag t (some (a, start)) :: outer⟩
  | some (.quoted _) | none => inside = []

/-- An attribute of an opening tag was read after those in `front`, with the elements inside it. -/
def AttributeRead (source : List Char) (start : Nat) (front : List Attribute) (a : Attribute)
    (inside : List Element) : Prop :=
  ∃ t outer, t.start = start ∧ t.attributes = front ∧
    NameReached source t outer ⟨a.name, a.start⟩ ∧
    ValueRead t outer ⟨a.name, a.start⟩ inside a.value ∧
    Forest source a.start inside a.stop ∧
    PartEnds source a.stop ((t.add inside).addAttribute ⟨a.name, a.start⟩ a.stop a.value) outer

/-- The name and the attributes of a tag were read at their places. -/
structure HeadRead (source : List Char) (start nameEnd : Nat) (name : String)
    (attributes : List Attribute) : Prop where
  nameRead : name ≠ "" → ∃ outer, PartEnds source nameEnd { start, name, nameEnd } outer
  attributeRead : ∀ front a back, attributes = front ++ a :: back →
    ∃ inside, AttributeRead source start front a inside

section Growth

variable {source : List Char} {t : OpenTag} {outer : List Context} {a : OpenAttribute}

theorem Situation.Clears.append_right {s : Situation} {here : Cursor} {rest : List Char}
    (h : s.Clears here t outer rest) (more : List Char) : s.Clears here t outer (rest ++ more) := by
  rcases h with h | ⟨gap, c, others, m, rfl, h⟩
  · exact .inl h
  · exact .inr ⟨gap, c, others ++ more, m, by simp, h⟩

theorem PartEnds.append_right {place : Nat} (h : PartEnds source place t outer)
    (more : List Char) : PartEnds (source ++ more) place t outer := by
  obtain ⟨before, rest, s, rfl, hlen, hend⟩ := h
  exact ⟨before, rest ++ more, s, by simp, hlen,
    { hend with clears := hend.clears.append_right more }⟩

theorem NameReached.append_right (h : NameReached source t outer a) (more : List Char) :
    NameReached (source ++ more) t outer a := by
  obtain ⟨before, rest, rfl, h⟩ := h
  exact ⟨before, rest ++ more, by simp, h⟩

theorem BracesOpened.append_right {start : Nat} (h : BracesOpened source t outer a start)
    (more : List Char) : BracesOpened (source ++ more) t outer a start := by
  obtain ⟨before, rest, rfl, h⟩ := h
  exact ⟨before, rest ++ more, by simp, h⟩

theorem AttributeRead.append_right {start : Nat} {front : List Attribute} {b : Attribute}
    {inside : List Element} (h : AttributeRead source start front b inside) (more : List Char) :
    AttributeRead (source ++ more) start front b inside := by
  obtain ⟨t, outer, hstart, hfront, hname, hvalue, hforest, hends⟩ := h
  exact ⟨t, outer, hstart, hfront, hname.append_right more, hvalue, hforest.append_right more,
    hends.append_right more⟩

theorem HeadRead.append_right {start nameEnd : Nat} {name : String} {as : List Attribute}
    (h : HeadRead source start nameEnd name as) (more : List Char) :
    HeadRead (source ++ more) start nameEnd name as where
  nameRead hne := by
    obtain ⟨outer, hends⟩ := h.nameRead hne
    exact ⟨outer, hends.append_right more⟩
  attributeRead front b back heq := by
    obtain ⟨inside, hread⟩ := h.attributeRead front b back heq
    exact ⟨inside, hread.append_right more⟩

end Growth

/-! ### Ends of parts -/

section PartEnd

variable {before rest : List Char} {t : OpenTag} {outer : List Context}

@[simp]
theorem Cursor.passed_after_start (cs : List Char) : (Cursor.start.after cs).passed = cs := by
  simp

@[simp]
theorem Cursor.offset_after_start (cs : List Char) :
    (Cursor.start.after cs).offset = Text.byteLength cs := by
  rw [Cursor.offset_eq_byteLength, Cursor.passed_after_start]

/-- What is reached is sound. -/
theorem Reached.sound {s : Situation} (h : Reached before s) :
    s.Sound (Cursor.start.after before) :=
  Scan.sound_of_run (t := ⟨Cursor.start.after before, s⟩) h

/-- A part ends where nothing is open between two parts. -/
theorem PartEnd.of_between (h : Reached before ⟨.tag t .between, outer⟩) (rest : List Char) :
    PartEnd before rest ⟨.tag t .between, outer⟩ t outer := by
  cases h.sound with
  | @tag limit _ _ _ tag pending _ stacked =>
    have hle : limit ≤ Text.byteLength before := by
      rw [← Cursor.offset_after_start]
      exact pending
    rw [Cursor.passed_after_start] at tag stacked
    exact ⟨h, settles_between, .inl rfl, tag.mono hle hle, stacked⟩

/-- The name of a tag ends before something else. -/
theorem PartEnd.of_name {start : Nat} (h : Reached before ⟨.tag { start } .name, outer⟩)
    (clears : Situation.Clears ⟨.tag { start } .name, outer⟩ (Cursor.start.after before)
      (OpenTag.named { start } (Cursor.start.after before)) outer rest) :
    PartEnd before rest ⟨.tag { start } .name, outer⟩
      (OpenTag.named { start } (Cursor.start.after before)) outer := by
  cases h.sound with
  | name opening _ stacked =>
    have sound := OpenTag.sound_named opening
    rw [Cursor.passed_after_start, Cursor.offset_after_start] at sound
    rw [Cursor.passed_after_start] at stacked
    exact ⟨h, settles_name rfl, clears, sound, stacked⟩
  | tag _ pending => exact pending.elim

/-- The name of an attribute ends before something that is no value. -/
theorem PartEnd.of_attribute {a : OpenAttribute}
    (h : Reached before ⟨.tag t (.attribute a.start), outer⟩)
    (hname : (Cursor.start.after before).since a.start = a.name.toList)
    (clears : Situation.Clears ⟨.tag t (.attribute a.start), outer⟩ (Cursor.start.after before)
      (t.addAttribute a (Text.byteLength before) none) outer rest) :
    PartEnd before rest ⟨.tag t (.attribute a.start), outer⟩
      (t.addAttribute a (Text.byteLength before) none) outer := by
  cases h.sound with
  | tag tag pending _ stacked =>
    obtain ⟨hle, hlt, hb⟩ := pending
    rw [Cursor.passed_after_start] at tag stacked hb
    rw [Cursor.offset_after_start] at hlt
    have ha : a.Sound before _ (Text.byteLength before) := ⟨hle, hlt, hb⟩
    have settles : Situation.Settles ⟨.tag t (.attribute a.start), outer⟩ _ _ _ :=
      settles_attribute hname
    rw [String.ofList_toList, Cursor.offset_after_start] at settles
    exact ⟨h, settles, clears, tag.addAttribute ha ha.limit_le (.last before) none, stacked⟩

end PartEnd

/-! ### Situations -/

/-- Every element, also of those inside others, has its parts where they were read. -/
def AllHeaded (source : List Char) (es : List Element) : Prop :=
  ∀ e ∈ Element.walkAll es, HeadRead source e.start e.nameEnd e.tag e.attributes

/-- The parts of an opening tag, and those of the elements in it, were read at their places. -/
structure OpenTag.Headed (source : List Char) (t : OpenTag) : Prop where
  head : HeadRead source t.start t.nameEnd t.name t.attributes
  found : AllHeaded source t.found

/-- The attribute that is being read has its name where it was read. -/
def OpenTag.Part.Headed (source : List Char) (t : OpenTag) (outer : List Context) :
    OpenTag.Part → Prop
  | .name | .between | .slash _ | .attribute _ => True
  | .gap a stop => NameEnded source t outer a stop
  | .equals a | .quoted a _ _ => NameReached source t outer a

/-- What waits has its parts where they were read. -/
inductive Waiting (source : List Char) : List Context → Prop
  | nil : Waiting source []
  | script {s : Script} {outer : List Context} (found : AllHeaded source s.found)
    (waiting : Waiting source outer) : Waiting source (.script s :: outer)
  | template {t : Template} {outer : List Context} (found : AllHeaded source t.found)
    (waiting : Waiting source outer) : Waiting source (.template t :: outer)
  | tag {t : OpenTag} {outer : List Context} (tag : t.Headed source)
    (waiting : Waiting source outer) : Waiting source (.tag t none :: outer)
  | value {t : OpenTag} {a : OpenAttribute} {start : Nat} {outer : List Context}
    (tag : t.Headed source) (name : NameReached source t outer a)
    (opened : BracesOpened source t outer a start) (waiting : Waiting source outer) :
    Waiting source (.tag t (some (a, start)) :: outer)
  | content {e : OpenElement} {outer : List Context} (tag : e.tag.Headed source)
    (waiting : Waiting source outer) : Waiting source (.content e :: outer)

/-- All that a situation records has its parts where they were read. -/
inductive Situation.Headed (source : List Char) : Situation → Prop
  | script {s : Script} {part : Script.Part} {outer : List Context}
    (found : AllHeaded source s.found) (waiting : Waiting source outer) :
    Headed source ⟨.script s part, outer⟩
  | template {t : Template} {part : Template.Part} {outer : List Context}
    (found : AllHeaded source t.found) (waiting : Waiting source outer) :
    Headed source ⟨.template t part, outer⟩
  | name {t : OpenTag} {outer : List Context} (waiting : Waiting source outer) :
    Headed source ⟨.tag t .name, outer⟩
  | tag {t : OpenTag} {part : OpenTag.Part} {outer : List Context} (tag : t.Headed source)
    (pending : part.Headed source t outer) (waiting : Waiting source outer) :
    Headed source ⟨.tag t part, outer⟩
  | content {e : OpenElement} {part : OpenElement.Part} {outer : List Context}
    (tag : e.tag.Headed source) (waiting : Waiting source outer) :
    Headed source ⟨.content e part, outer⟩

section Growth

variable {source : List Char}

theorem AllHeaded.nil : AllHeaded source [] := by
  simp [AllHeaded]

theorem AllHeaded.append {es fs : List Element} (hes : AllHeaded source es)
    (hfs : AllHeaded source fs) : AllHeaded source (es ++ fs) := by
  intro e he
  rw [Element.walkAll_append, List.mem_append] at he
  exact he.elim (hes e) (hfs e)

theorem AllHeaded.append_right {es : List Element} (h : AllHeaded source es) (more : List Char) :
    AllHeaded (source ++ more) es :=
  fun e he => (h e he).append_right more

theorem OpenTag.Headed.append_right {t : OpenTag} (h : t.Headed source) (more : List Char) :
    t.Headed (source ++ more) :=
  ⟨h.head.append_right more, h.found.append_right more⟩

/-- Elements found further on keep an opening tag headed. -/
theorem OpenTag.Headed.add {t : OpenTag} {es : List Element} (h : t.Headed source)
    (hes : AllHeaded source es) : (t.add es).Headed source :=
  ⟨h.head, h.found.append hes⟩

/-- The element of an opening tag has its parts where they were read. -/
theorem OpenTag.Headed.element {t : OpenTag} {openEnd stop : Nat} {selfClosing : Bool}
    (h : t.Headed source) : AllHeaded source [t.element openEnd stop selfClosing] := by
  intro e he
  simp only [Element.walkAll_cons, Element.walkAll_nil, List.append_nil, List.mem_cons] at he
  rcases he with rfl | he
  · exact h.head
  · exact h.found e he

theorem Waiting.append_right {outer : List Context} (h : Waiting source outer)
    (more : List Char) : Waiting (source ++ more) outer := by
  induction h with
  | nil => exact .nil
  | script found _ ih => exact .script (found.append_right more) ih
  | template found _ ih => exact .template (found.append_right more) ih
  | tag tag _ ih => exact .tag (tag.append_right more) ih
  | value tag name opened _ ih =>
    exact .value (tag.append_right more) (name.append_right more) (opened.append_right more) ih
  | content tag _ ih => exact .content (tag.append_right more) ih

end Growth

/-! ### What a move keeps -/

section Move

variable {here : Cursor} {c : Char} {t : OpenTag} {outer : List Context} {s s' : Situation}

theorem OpenTag.add_nil (t : OpenTag) : t.add [] = t := by
  simp [OpenTag.add]

/-- Cursors that have passed a text from its start. -/
theorem Cursor.eq_after_passed (here : Cursor) : Cursor.start.after here.passed = here :=
  Cursor.ext_passed (by simp)

theorem AllHeaded.advance {es : List Element} (h : AllHeaded here.passed es) (c : Char) :
    AllHeaded (here.advance c).passed es := by
  rw [Cursor.passed_advance]
  exact h.append_right [c]

theorem Waiting.advance (h : Waiting here.passed outer) (c : Char) :
    Waiting (here.advance c).passed outer := by
  rw [Cursor.passed_advance]
  exact h.append_right [c]

theorem OpenTag.Headed.advance (h : t.Headed here.passed) (c : Char) :
    t.Headed (here.advance c).passed := by
  rw [Cursor.passed_advance]
  exact h.append_right [c]

theorem NameReached.advance {a : OpenAttribute} (h : NameReached here.passed t outer a) (c : Char) :
    NameReached (here.advance c).passed t outer a := by
  rw [Cursor.passed_advance]
  exact h.append_right [c]

/-- A further attribute that was read at its place keeps an opening tag headed. -/
theorem OpenTag.Headed.addAttribute {source : List Char} {a : OpenAttribute} {stop : Nat}
    {value : Option Value} {inside : List Element} (h : t.Headed source)
    (found : AllHeaded source inside) (name : NameReached source t outer a)
    (read : ValueRead t outer a inside value) (forest : Forest source a.start inside stop)
    (ends : PartEnds source stop ((t.add inside).addAttribute a stop value) outer) :
    ((t.add inside).addAttribute a stop value).Headed source := by
  refine ⟨⟨h.head.nameRead, fun front b back heq => ?_⟩, (h.add found).found⟩
  have hattributes : t.attributes ++ [⟨a.name, a.start, stop, value⟩] = front ++ b :: back := heq
  rcases List.eq_nil_or_concat back with rfl | ⟨back, last, rfl⟩
  -- The further attribute is the one in question.
  · obtain ⟨rfl, hb⟩ := List.append_inj' hattributes rfl
    obtain rfl : Attribute.mk a.name a.start stop value = b := by simpa using hb
    exact ⟨inside, t, outer, rfl, rfl, name, read, forest, ends⟩
  · rw [List.concat_eq_append, ← List.cons_append, ← List.append_assoc] at hattributes
    exact h.head.attributeRead front b back (List.append_inj' hattributes rfl).1

/-- An attribute whose value was just completed. -/
theorem OpenTag.Headed.complete {source : List Char} {a : OpenAttribute} {stop : Nat}
    {value : Option Value} {inside : List Element} (h : t.Headed source)
    (found : AllHeaded source inside) (name : NameReached source t outer a)
    (read : ValueRead t outer a inside value) (forest : Forest source a.start inside stop)
    (hlen : Text.byteLength source = stop)
    (reached : Reached source ⟨.tag ((t.add inside).addAttribute a stop value) .between, outer⟩) :
    ((t.add inside).addAttribute a stop value).Headed source := by
  refine h.addAttribute found name read forest ?_
  exact ⟨source, [], _, by simp, hlen, .of_between reached []⟩

theorem Situation.Headed.of_next (tag : t.Headed (here.advance c).passed)
    (waiting : Waiting (here.advance c).passed outer) (next : t.Next outer here c s) :
    s.Headed (here.advance c).passed := by
  cases next with
  | blank | slash | «attribute» => exact .tag tag trivial waiting
  | close => exact .content tag waiting
  | braces => exact .script .nil (.tag tag waiting)

/-- The name of an attribute was read, and the next character is no blank and no equals sign: the
attribute has no value. -/
theorem NameEnded.partEnds {a : OpenAttribute} {stop : Nat}
    (h : NameEnded here.passed t outer a stop) (reached : Reached here.passed s)
    (hread : s.read here c = (t.addAttribute a stop none).readBetween outer here c) :
    PartEnds (here.advance c).passed stop (t.addAttribute a stop none) outer := by
  obtain ⟨before, gap, hpassed, rfl, hbefore, hname, hblank⟩ := h
  refine ⟨before, gap ++ [c], _, by simp [hpassed], rfl, .of_attribute hbefore hname (.inr ?_)⟩
  rw [hpassed] at reached
  obtain ⟨m, hm, hgap⟩ := reached.of_append
  obtain rfl := hbefore.unique hm
  have hhere : (Cursor.start.after before).after gap = here := by
    rw [← Cursor.after_append, ← hpassed, Cursor.eq_after_passed]
  refine ⟨gap, c, [], s, rfl, hblank, hgap, ?_⟩
  rw [hhere]
  exact hread

theorem Situation.Headed.of_nextAfterName {a : OpenAttribute} {stop : Nat}
    (reached : Reached here.passed s) (tag : t.Headed here.passed)
    (ended : NameEnded here.passed t outer a stop) (hle : a.start ≤ stop)
    (hread : Text.isAsciiBlank c = false → c ≠ '=' →
      s.read here c = (t.addAttribute a stop none).readBetween outer here c)
    (waiting : Waiting here.passed outer) (next : t.NextAfterName a stop outer here c s') :
    s'.Headed (here.advance c).passed := by
  have tag' := tag.advance c
  have waiting' := waiting.advance c
  have name : NameReached (here.advance c).passed t outer a := by
    obtain ⟨before, gap, hbefore, -, hreached, hname, -⟩ := ended
    exact ⟨before, gap ++ [c], by simp [hbefore], hreached, hname⟩
  cases next with
  | blank hc =>
    obtain ⟨before, gap, hbefore, hlen, hreached, hname, hblank⟩ := ended
    refine .tag tag' ⟨before, gap ++ [c], by simp [hbefore], hlen, hreached, hname, ?_⟩ waiting'
    intro b hb
    rcases List.mem_append.1 hb with hb | hb
    · exact hblank b hb
    · obtain rfl := List.mem_singleton.1 hb
      exact hc
  | equals => exact .tag tag' name waiting'
  -- The attribute has no value, so what was read up to its name makes up all of it.
  | commit hc hne next =>
    have ends := ended.partEnds reached (hread hc hne)
    rw [← t.add_nil] at ends next
    have read : ValueRead t outer a [] none := rfl
    exact .of_next (tag'.addAttribute .nil name read (.nil hle) ends) waiting' next

/-- What is known of a name that ends here makes the tag headed. -/
theorem Situation.Headed.of_nextInName {start : Nat} (waiting : Waiting here.passed outer)
    (ends : isTagChar c = false → (OpenTag.named { start } here).name ≠ "" →
      PartEnds (here.advance c).passed here.offset (OpenTag.named { start } here) outer)
    (next : OpenTag.NextInName { start } outer here c s) : s.Headed (here.advance c).passed := by
  have waiting' := waiting.advance c
  cases next with
  | more => exact .name waiting'
  | done hc next =>
    refine .of_next ⟨⟨fun hne => ⟨outer, ends hc hne⟩, ?_⟩, .nil⟩ waiting' next
    intro front a back heq
    have hattributes : [] = front ++ a :: back := heq
    simp at hattributes

/-- The name of a tag ends before a character that is no part of it. -/
theorem partEnds_named {start : Nat} (reached : Reached here.passed ⟨.tag { start } .name, outer⟩)
    (hc : isTagChar c = false) :
    PartEnds (here.advance c).passed here.offset (OpenTag.named { start } here) outer := by
  have hclears : Situation.Clears ⟨.tag { start } .name, outer⟩ (Cursor.start.after here.passed)
      (OpenTag.named { start } (Cursor.start.after here.passed)) outer [c] := by
    refine .inr ⟨[], c, [], _, rfl, by simp, .nil _ _, ?_⟩
    simp [Situation.read, OpenTag.read, hc, OpenTag.named]
  have hend := PartEnd.of_name reached hclears
  rw [here.eq_after_passed] at hend
  exact ⟨here.passed, [c], _, by simp, here.offset_eq_byteLength.symm, hend⟩

/-- A tag whose name would begin right here has no name. -/
theorem OpenTag.name_named {start : Nat} (h : here.offset = start + 1) :
    (OpenTag.named { start } here).name = "" := by
  have hsince : here.since (start + 1) = [] := by
    rw [← h]
    simp [Cursor.since]
  simp [OpenTag.named, hsince]

theorem Situation.Headed.of_left {source : List Char} {inner : List Element}
    (found : AllHeaded source inner) (waiting : Waiting source outer) (left : Left inner outer s) :
    s.Headed source := by
  cases left with
  | script s outer =>
    cases waiting with
    | script hs waiting => exact .script (hs.append found) waiting
  | content e outer =>
    cases waiting with
    | content tag waiting => exact .content (tag.add found) waiting
  | astray => exact .script found waiting

/-- What was read since an opening brace is what follows it. -/
theorem Cursor.since_brace (here : Cursor) {before rest : List Char}
    (h : here.passed = before ++ '\x7b' :: rest) :
    here.since (Text.byteLength before + 1) = rest := by
  have hmark : here.passed = (before ++ ['\x7b']) ++ rest := by simp [h]
  rw [← Cursor.since_eq hmark, Text.byteLength_append]
  rfl

/-- What is found in the braces of a value was found when their text was read. -/
theorem BracesOpened.valueRead {a : OpenAttribute} {start : Nat} {script : Script}
    {part : Script.Part} (h : BracesOpened here.passed t outer a start)
    (reached : Reached here.passed ⟨.script script part, .tag t (some (a, start)) :: outer⟩) :
    ValueRead t outer a script.found (some (.braced (here.since (start + 1)))) := by
  obtain ⟨before, rest, hpassed, rfl, hbefore⟩ := h
  have hsince := here.since_brace hpassed
  rw [hpassed] at reached
  obtain ⟨m, hm, hbraces⟩ := reached.of_append
  obtain rfl := hbefore.unique hm
  obtain ⟨n, hn, hrest⟩ := hbraces.of_cons
  have enter : Situation.read ⟨.tag t (.equals a), outer⟩ (Cursor.start.after before) '\x7b' =
      .ok ⟨.script {} .between, .tag t (some (a, (Cursor.start.after before).offset)) :: outer⟩ :=
    rfl
  rw [Cursor.offset_after_start] at enter
  cases hn.symm.trans enter
  rw [hsince]
  exact ⟨_, _, script, part, rfl, hrest⟩

/-- Leaving braces completes the attribute that waits for them, if one does. -/
theorem Situation.Headed.of_leftBraces {lo hi : Nat} {script script' : Script} {part : Script.Part}
    (entered : Reached here.passed ⟨.script script' part, outer⟩)
    (heq : script.found = script'.found)
    (reached : Reached (here.advance c).passed s) (hc : c = '\x7d')
    (forest : Forest here.passed lo script.found hi) (hi_le : hi ≤ here.offset)
    (stacked : Stacked here.passed lo outer) (found : AllHeaded here.passed script.found)
    (waiting : Waiting here.passed outer) (left : LeftBraces here script outer s) :
    s.Headed (here.advance c).passed := by
  have found' := found.advance c
  cases left with
  | template t outer =>
    cases waiting.advance c with
    | template ht waiting => exact .template (ht.append found') waiting
  | tag t outer =>
    cases waiting.advance c with
    | tag tag waiting => exact .tag (tag.add found') trivial waiting
  | value t a start outer =>
    have hoffset : (here.advance c).offset = here.offset + 1 :=
      Cursor.offset_advance_eq (by rw [hc]; decide)
    cases waiting with
    | value tag name opened waiting =>
      cases stacked with
      | value _ value =>
        -- The braces are the value of the attribute, and what was found inside belongs to its tag.
        have read := opened.valueRead entered
        rw [← heq] at read
        have forest' : Forest (here.advance c).passed a.start script.found (here.offset + 1) :=
          (forest.advance c).mono (Nat.le_of_lt value.2.1) (Nat.le_succ_of_le hi_le)
        have hlen : Text.byteLength (here.advance c).passed = here.offset + 1 := by
          rw [← Cursor.offset_eq_byteLength, hoffset]
        have tag' := (tag.advance c).complete found' (name.advance c) read forest' hlen reached
        exact .tag tag' trivial (waiting.advance c)
  | content e outer =>
    cases waiting.advance c with
    | content tag waiting => exact .content (tag.add found') waiting

theorem Situation.Headed.move_script {script : Script} {part : Script.Part}
    (h : Headed here.passed ⟨.script script part, outer⟩)
    (sound : Sound here ⟨.script script part, outer⟩)
    (reached : Reached here.passed ⟨.script script part, outer⟩)
    (reached' : Reached (here.advance c).passed s)
    (m : Move here c ⟨.script script part, outer⟩ s) : s.Headed (here.advance c).passed := by
  obtain ⟨found, waiting⟩ := h
  obtain ⟨forest, hi_le, angle, stacked⟩ := sound
  cases m with
  | script found' =>
    rw [← found'] at found
    exact .script (found.advance c) (waiting.advance c)
  | enterTemplate found' =>
    rw [← found'] at found
    exact .template .nil (.script (found.advance c) (waiting.advance c))
  | leaveBraces hc found' left =>
    rw [← found'] at found forest
    exact .of_leftBraces reached found' reached' hc forest hi_le stacked found waiting left
  | scriptElement _ next =>
    -- The angle bracket was the last character, so the new tag has no name yet.
    exact .of_nextInName (.script found waiting)
      (fun _ hne => absurd (OpenTag.name_named (angle _ rfl).2.2) hne) next

theorem Situation.Headed.move_template {template : Template} {part : Template.Part}
    (h : Headed here.passed ⟨.template template part, outer⟩)
    (m : Move here c ⟨.template template part, outer⟩ s) : s.Headed (here.advance c).passed := by
  cases h with
  | template found waiting =>
    have found' := found.advance c
    have waiting' := waiting.advance c
    cases m with
    | template => exact .template found' waiting'
    | enterSubstitution => exact .script .nil (.template found' waiting')
    | leaveTemplate left => exact .of_left found' waiting' left

/-- The name of an attribute ends before a character that is no part of it. -/
theorem Situation.Headed.of_attributeName {start : Nat} (tag : t.Headed here.passed)
    (reached : Reached here.passed ⟨.tag t (.attribute start), outer⟩)
    (hlt : start < here.offset) (hc : isAttributeChar c = false)
    (waiting : Waiting here.passed outer)
    (next : t.NextAfterName ⟨String.ofList (here.since start), start⟩ here.offset outer here c s) :
    s.Headed (here.advance c).passed := by
  have ended : NameEnded here.passed t outer ⟨String.ofList (here.since start), start⟩
      here.offset :=
    ⟨here.passed, [], by simp, here.offset_eq_byteLength.symm, reached,
      by simp [here.eq_after_passed], by simp⟩
  refine .of_nextAfterName reached tag ended (Nat.le_of_lt hlt) ?_ waiting next
  intro hblank hne
  simp [Situation.read, OpenTag.read, OpenTag.readGap, hc, hblank, hne]

/-- The closing quote of a value completes its attribute. -/
theorem OpenTag.Headed.unquoted {a : OpenAttribute} {value : List Char} (tag : t.Headed here.passed)
    (name : NameReached here.passed t outer a) (hlt : a.start < here.offset) (hc : c.toNat < 0x80)
    (reached : Reached (here.advance c).passed
      ⟨.tag (t.addAttribute a (here.offset + 1) (some (.quoted value))) .between, outer⟩) :
    (t.addAttribute a (here.offset + 1) (some (.quoted value))).Headed (here.advance c).passed := by
  have hlen : Text.byteLength (here.advance c).passed = here.offset + 1 := by
    rw [← Cursor.offset_eq_byteLength, Cursor.offset_advance_eq hc]
  have hle : a.start ≤ here.offset + 1 := Nat.le_succ_of_le (Nat.le_of_lt hlt)
  have read : ValueRead t outer a [] (some (.quoted value)) := rfl
  rw [← t.add_nil] at reached
  have tag' := (tag.advance c).complete .nil (name.advance c) read (.nil hle) hlen reached
  rwa [t.add_nil] at tag'

/-- What waits for an opening tag has its parts where they were read. -/
theorem Situation.Headed.waiting {source : List Char} {part : OpenTag.Part}
    (h : Headed source ⟨.tag t part, outer⟩) : Waiting source outer := by
  cases h with
  | name waiting => exact waiting
  | tag _ _ waiting => exact waiting

/-- A move in an opening tag whose name was read. -/
theorem Situation.Headed.move_tag {part : OpenTag.Part} {limit : Nat} (tag : t.Headed here.passed)
    (pending : part.Headed here.passed t outer) (waiting : Waiting here.passed outer)
    (places : part.Sound here.passed limit here.offset)
    (reached : Reached here.passed ⟨.tag t part, outer⟩)
    (reached' : Reached (here.advance c).passed s)
    (m : Move here c ⟨.tag t part, outer⟩ s) : s.Headed (here.advance c).passed := by
  have tag' := tag.advance c
  have waiting' := waiting.advance c
  cases m with
  | name => exact places.elim
  | tag next => exact .of_next tag' waiting' next
  | selfClose _ left => exact .of_left tag'.element waiting' left
  | «attribute» _ => exact .tag tag' trivial waiting'
  | attributeName hc next => exact .of_attributeName tag reached places.2.1 hc waiting next
  | gap next =>
    refine .of_nextAfterName reached tag pending (Nat.le_of_lt places.1.2.1) ?_ waiting next
    intro hblank hne
    simp [Situation.read, OpenTag.read, OpenTag.readGap, hblank, hne]
  | equals _ | quote _ | quoted => exact .tag tag' (NameReached.advance pending c) waiting'
  | enterValue hc =>
    have opened : BracesOpened (here.advance c).passed _ _ _ here.offset :=
      ⟨here.passed, [], by simp [hc], here.offset_eq_byteLength.symm, reached⟩
    exact .script .nil (.value tag' (NameReached.advance pending c) opened waiting')
  | unquote => exact .tag (tag.unquoted pending places.1.2.1 places.2 reached') trivial waiting'

theorem Situation.Headed.move_content {e : OpenElement} {part : OpenElement.Part}
    (h : Headed here.passed ⟨.content e part, outer⟩) (sound : Sound here ⟨.content e part, outer⟩)
    (m : Move here c ⟨.content e part, outer⟩ s) : s.Headed (here.advance c).passed := by
  cases h with
  | content tag waiting =>
    have tag' := tag.advance c
    have waiting' := waiting.advance c
    cases m with
    | content _ => exact .content tag' waiting'
    | enterBraces => exact .script .nil (.content tag' waiting')
    | contentElement _ next =>
      cases sound with
      | content _ _ angle =>
        exact .of_nextInName (.content tag waiting)
          (fun _ hne => absurd (OpenTag.name_named (angle _ rfl).2.2) hne) next
    | close _ left => exact .of_left tag'.element waiting' left

/-- A move keeps what a situation records headed. -/
theorem Situation.Headed.move (h : s.Headed here.passed) (sound : s.Sound here)
    (reached : Reached here.passed s) (reached' : Reached (here.advance c).passed s')
    (m : Move here c s s') : s'.Headed (here.advance c).passed := by
  obtain ⟨focus, outer⟩ := s
  cases focus with
  | script => exact h.move_script sound reached reached' m
  | template => exact h.move_template m
  -- A tag is headed once its name was read, so the move that ends the name is apart.
  | tag t part =>
    cases sound with
    | name =>
      cases m with
      | name next =>
        exact .of_nextInName h.waiting (fun hc _ => partEnds_named reached hc) next
    | tag _ places =>
      cases h with
      | name => exact places.elim
      | tag tag pending waiting => exact .move_tag tag pending waiting places reached reached' m
  | content => exact h.move_content sound m

end Move

/-! ### What a scan keeps -/

/-- Whatever was read, what was recorded has its parts where they were read. -/
theorem Scan.headed_of_run {t : Scan} {cs : List Char} (h : Scan.start.run cs = .ok t) :
    t.situation.Headed cs := by
  -- Where the parts of a tag were read follows from how the situation was reached and from its
  -- soundness, so the invariant is all three.
  have hinvariant : Reached t.cursor.passed t.situation ∧ t.situation.Sound t.cursor ∧
      t.situation.Headed t.cursor.passed := by
    refine run_invariant (P := fun s => Reached s.cursor.passed s.situation ∧
      s.situation.Sound s.cursor ∧ s.situation.Headed s.cursor.passed) ?_ ?_ h
    · rintro s t c ⟨reached, sound, headed⟩ hstep
      obtain ⟨x, hread, rfl⟩ := step_eq_ok_iff.1 hstep
      have reached' : Reached (s.cursor.advance c).passed x := by
        rw [Cursor.passed_advance]
        refine reached.append (.single ?_)
        rwa [Cursor.eq_after_passed]
      exact ⟨reached', sound.move (.of_read hread),
        headed.move sound reached reached' (.of_read hread)⟩
    · exact ⟨.nil _ _, sound_start, .script .nil .nil⟩
  rw [← passed_of_run_start h]
  exact hinvariant.2.2

/-- The elements of a text have their parts where they were read. -/
theorem headed_of_scan {source : List Char} {es : List Element} (h : scan source = .ok es) :
    AllHeaded source es := by
  obtain ⟨here, s, part, hrun, -, -, rfl⟩ := scan_eq_ok_iff.1 h
  cases Scan.headed_of_run hrun with
  | script found _ => exact found

end Mockup.Jsx
