import Mockup.Proofs.Jsx.Move
import Mockup.Proofs.Jsx.Walk

/-!
# Elements lie inside one another

What is recorded during a scan lies where it should: the parts of an opening tag follow one
another, elements side by side do not overlap, and what waits on the stack encloses what is being
read. `Situation.Sound` says so of a situation, `Situation.Sound.move` that a character keeps it.

## Main results

* `Situation.Sound.move`: a move keeps a situation sound.
* `forest_of_scan`: the elements of a text are sound and lie side by side within it.
-/

namespace Mockup.Jsx

open Text (HasAt IsBoundary InOrder)

/-! ### Elements -/

/-- Attributes that follow one another between two places, each from boundary to boundary. -/
def AttributesIn (source : List Char) (lo : Nat) (as : List Attribute) (hi : Nat) : Prop :=
  InOrder Attribute.start Attribute.stop lo as hi ∧
    ∀ a ∈ as, IsBoundary source a.start ∧ IsBoundary source a.stop

/-- The places of an element fit the text and one another. -/
structure Element.Sound (source : List Char) (e : Element) : Prop where
  /-- The element begins with an angle bracket and its tag. -/
  opening : HasAt source e.start ('<' :: e.tag.toList)
  /-- The name ends where the tag ends. -/
  nameEnd_eq : e.nameEnd = e.start + 1 + Text.byteLength e.tag.toList
  /-- The attributes stand between the name and the end of the opening tag. -/
  attributes : AttributesIn source e.nameEnd e.attributes (e.openEnd - 1)
  /-- The opening tag ends with an angle bracket. -/
  openEnd : HasAt source (e.openEnd - 1) ['>']
  /-- The opening tag ends within the element. -/
  openEnd_le : e.openEnd ≤ e.stop
  /-- The element ends with an angle bracket. -/
  stop : HasAt source (e.stop - 1) ['>']
  /-- An element without content ends with its opening tag. -/
  selfClosing : e.selfClosing = true → e.openEnd = e.stop
  /-- The elements inside lie side by side between the two ends. -/
  children : InOrder Element.start Element.stop (e.start + 1) e.children (e.stop - 1)

/-- Sound elements that lie side by side between two places. -/
def Forest (source : List Char) (lo : Nat) (es : List Element) (hi : Nat) : Prop :=
  InOrder Element.start Element.stop lo es hi ∧ ∀ e ∈ Element.walkAll es, e.Sound source

section Growth

variable {source : List Char} {lo lo' mid hi hi' : Nat}

theorem AttributesIn.append_right {as : List Attribute} (h : AttributesIn source lo as hi)
    (more : List Char) : AttributesIn (source ++ more) lo as hi :=
  ⟨h.1, fun a ha => ⟨(h.2 a ha).1.append_right more, (h.2 a ha).2.append_right more⟩⟩

theorem AttributesIn.mono {as : List Attribute} (h : AttributesIn source lo as hi)
    (hhi : hi ≤ hi') :
    AttributesIn source lo as hi' :=
  ⟨h.1.mono (Nat.le_refl _) hhi, h.2⟩

theorem AttributesIn.nil (h : lo ≤ hi) : AttributesIn source lo [] hi :=
  ⟨h, by simp⟩

/-- A further attribute at the end. -/
theorem AttributesIn.concat {as : List Attribute} {a : Attribute}
    (h : AttributesIn source lo as mid)
    (hstart : mid ≤ a.start) (hlt : a.start < a.stop) (hstop : a.stop ≤ hi)
    (hs : IsBoundary source a.start) (hp : IsBoundary source a.stop) :
    AttributesIn source lo (as ++ [a]) hi := by
  refine ⟨h.1.concat hstart hlt hstop, fun b hb => ?_⟩
  rcases List.mem_append.1 hb with hb | hb
  · exact h.2 b hb
  · obtain rfl := List.mem_singleton.1 hb
    exact ⟨hs, hp⟩

theorem Element.Sound.append_right {e : Element} (h : e.Sound source) (more : List Char) :
    e.Sound (source ++ more) where
  opening := h.opening.append_right more
  nameEnd_eq := h.nameEnd_eq
  attributes := h.attributes.append_right more
  openEnd := h.openEnd.append_right more
  openEnd_le := h.openEnd_le
  stop := h.stop.append_right more
  selfClosing := h.selfClosing
  children := h.children

theorem Forest.nil (h : lo ≤ hi) : Forest source lo [] hi :=
  ⟨h, by simp⟩

theorem Forest.append_right {es : List Element} (h : Forest source lo es hi) (more : List Char) :
    Forest (source ++ more) lo es hi :=
  ⟨h.1, fun e he => (h.2 e he).append_right more⟩

theorem Forest.mono {es : List Element} (h : Forest source lo es hi) (hlo : lo' ≤ lo)
    (hhi : hi ≤ hi') : Forest source lo' es hi' :=
  ⟨h.1.mono hlo hhi, h.2⟩

/-- Elements up to a place and elements from that place on lie side by side together. -/
theorem Forest.append {es fs : List Element} (hes : Forest source lo es mid)
    (hfs : Forest source mid fs hi) : Forest source lo (es ++ fs) hi := by
  refine ⟨hes.1.append hfs.1, fun e he => ?_⟩
  rw [Element.walkAll_append, List.mem_append] at he
  exact he.elim (hes.2 e) (hfs.2 e)

/-- A sound element whose inside is sound is a forest of its own. -/
theorem Forest.singleton {e : Element} (h : e.Sound source)
    (hin : ∀ f ∈ Element.walkAll e.children, f.Sound source) (hlt : e.start < e.stop) :
    Forest source e.start [e] e.stop := by
  refine ⟨⟨Nat.le_refl _, hlt, Nat.le_refl _⟩, fun f hf => ?_⟩
  simp only [Element.walkAll_cons, Element.walkAll_nil, List.append_nil, List.mem_cons] at hf
  rcases hf with rfl | hf
  · exact h
  · exact hin f hf

end Growth

/-! ### Situations -/

/-- The places of an opening tag fit the text; its attributes end before `limit`, and the elements
in it before `place`. -/
structure OpenTag.Sound (source : List Char) (limit place : Nat) (t : OpenTag) : Prop where
  opening : HasAt source t.start ('<' :: t.name.toList)
  nameEnd_eq : t.nameEnd = t.start + 1 + Text.byteLength t.name.toList
  attributes : AttributesIn source t.nameEnd t.attributes limit
  found : Forest source (t.start + 1) t.found place

/-- An attribute that is not complete begins after `limit`. -/
def OpenAttribute.Sound (source : List Char) (limit place : Nat) (a : OpenAttribute) : Prop :=
  limit ≤ a.start ∧ a.start < place ∧ IsBoundary source a.start

/-- The part of an opening tag that is being read begins after `limit`. -/
def OpenTag.Part.Sound (source : List Char) (limit place : Nat) : OpenTag.Part → Prop
  | .name => False
  | .between | .slash _ => limit ≤ place
  | .attribute start => limit ≤ start ∧ start < place ∧ IsBoundary source start
  | .gap a stop => a.Sound source limit stop ∧ stop ≤ place ∧ IsBoundary source stop
  | .equals a => a.Sound source limit place
  | .quoted a quote _ => a.Sound source limit place ∧ quote.toNat < 0x80

/-- An opened element has its opening tag behind it. -/
structure OpenElement.Sound (source : List Char) (place : Nat) (e : OpenElement) : Prop where
  tag : e.tag.Sound source (e.openEnd - 1) place
  openEnd : HasAt source (e.openEnd - 1) ['>']
  openEnd_le : e.openEnd ≤ place

/-- An element can stand in scripts and in the content of elements. -/
def Admits : List Context → Prop
  | .script _ :: _ | .content _ :: _ => True
  | _ => False

theorem Admits.script (s : Script) (outer : List Context) : Admits (.script s :: outer) :=
  trivial

theorem Admits.content (e : OpenElement) (outer : List Context) : Admits (.content e :: outer) :=
  trivial

/-- What waits for something that began at `place` is sound and began before it. -/
inductive Stacked (source : List Char) : Nat → List Context → Prop
  | nil {place : Nat} : Stacked source place []
  | script {lo place : Nat} {s : Script} {outer : List Context}
    (found : Forest source lo s.found place) (waiting : Stacked source lo outer) :
    Stacked source place (.script s :: outer)
  | template {lo place : Nat} {t : Template} {s : Script} {outer : List Context}
    (found : Forest source lo t.found place) (waiting : Stacked source lo (.script s :: outer)) :
    Stacked source place (.template t :: .script s :: outer)
  | tag {place limit : Nat} {t : OpenTag} {outer : List Context}
    (tag : t.Sound source limit limit) (limit_le : limit ≤ place) (admits : Admits outer)
    (waiting : Stacked source t.start outer) : Stacked source place (.tag t none :: outer)
  | value {place limit start : Nat} {t : OpenTag} {a : OpenAttribute} {outer : List Context}
    (tag : t.Sound source limit limit) (value : a.Sound source limit place)
    (admits : Admits outer) (waiting : Stacked source t.start outer) :
    Stacked source place (.tag t (some (a, start)) :: outer)
  | content {place : Nat} {e : OpenElement} {outer : List Context} (element : e.Sound source place)
    (admits : Admits outer) (waiting : Stacked source e.tag.start outer) :
    Stacked source place (.content e :: outer)

/-- What was recorded so far is sound. -/
inductive Situation.Sound (here : Cursor) : Situation → Prop
  | script {lo hi : Nat} {s : Script} {part : Script.Part} {outer : List Context}
    (found : Forest here.passed lo s.found hi) (hi_le : hi ≤ here.offset)
    (angle : ∀ o, part = .angle o → hi ≤ o ∧ HasAt here.passed o ['<'] ∧ here.offset = o + 1)
    (waiting : Stacked here.passed lo outer) : Sound here ⟨.script s part, outer⟩
  | template {lo : Nat} {t : Template} {part : Template.Part} {s : Script} {outer : List Context}
    (found : Forest here.passed lo t.found here.offset)
    (waiting : Stacked here.passed lo (.script s :: outer)) :
    Sound here ⟨.template t part, .script s :: outer⟩
  | name {start : Nat} {outer : List Context} (opening : HasAt here.passed start ['<'])
    (admits : Admits outer) (waiting : Stacked here.passed start outer) :
    Sound here ⟨.tag { start } .name, outer⟩
  | tag {limit : Nat} {t : OpenTag} {part : OpenTag.Part} {outer : List Context}
    (tag : t.Sound here.passed limit limit)
    (pending : part.Sound here.passed limit here.offset) (admits : Admits outer)
    (waiting : Stacked here.passed t.start outer) : Sound here ⟨.tag t part, outer⟩
  | content {hi : Nat} {e : OpenElement} {part : OpenElement.Part} {outer : List Context}
    (element : e.Sound here.passed hi) (hi_le : hi ≤ here.offset)
    (angle : ∀ o, part = .angle o → hi ≤ o ∧ HasAt here.passed o ['<'] ∧ here.offset = o + 1)
    (admits : Admits outer) (waiting : Stacked here.passed e.tag.start outer) :
    Sound here ⟨.content e part, outer⟩

section Growth

variable {source : List Char} {limit limit' place place' : Nat}

theorem OpenTag.Sound.append_right {t : OpenTag} (h : t.Sound source limit place)
    (more : List Char) : t.Sound (source ++ more) limit place where
  opening := h.opening.append_right more
  nameEnd_eq := h.nameEnd_eq
  attributes := h.attributes.append_right more
  found := h.found.append_right more

theorem OpenTag.Sound.mono {t : OpenTag} (h : t.Sound source limit place) (hl : limit ≤ limit')
    (hp : place ≤ place') : t.Sound source limit' place' :=
  { h with attributes := h.attributes.mono hl, found := h.found.mono (Nat.le_refl _) hp }

theorem OpenAttribute.Sound.append_right {a : OpenAttribute} (h : a.Sound source limit place)
    (more : List Char) : a.Sound (source ++ more) limit place :=
  ⟨h.1, h.2.1, h.2.2.append_right more⟩

theorem OpenAttribute.Sound.mono {a : OpenAttribute} (h : a.Sound source limit place)
    (hp : place ≤ place') : a.Sound source limit place' :=
  ⟨h.1, Nat.lt_of_lt_of_le h.2.1 hp, h.2.2⟩

/-- What comes before an attribute ends before the attribute does. -/
theorem OpenAttribute.Sound.limit_le {a : OpenAttribute} (h : a.Sound source limit place) :
    limit ≤ place :=
  Nat.le_trans h.1 (Nat.le_of_lt h.2.1)

theorem OpenElement.Sound.append_right {e : OpenElement} (h : e.Sound source place)
    (more : List Char) : e.Sound (source ++ more) place where
  tag := h.tag.append_right more
  openEnd := h.openEnd.append_right more
  openEnd_le := h.openEnd_le

theorem OpenElement.Sound.mono {e : OpenElement} (h : e.Sound source place) (hp : place ≤ place') :
    e.Sound source place' :=
  { h with
    tag := h.tag.mono (Nat.le_refl _) hp
    openEnd_le := Nat.le_trans h.openEnd_le hp }

theorem Stacked.append_right {outer : List Context} (h : Stacked source place outer)
    (more : List Char) : Stacked (source ++ more) place outer := by
  induction h with
  | nil => exact .nil
  | script found _ ih => exact .script (found.append_right more) ih
  | template found _ ih => exact .template (found.append_right more) ih
  | tag tag limit_le admits _ ih => exact .tag (tag.append_right more) limit_le admits ih
  | value tag value admits _ ih =>
    exact .value (tag.append_right more) (value.append_right more) admits ih
  | content element admits _ ih => exact .content (element.append_right more) admits ih

end Growth

/-! ### What a move keeps -/

section Move

variable {here : Cursor} {c : Char} {outer : List Context} {s : Situation}

theorem Cursor.offset_le_advance (here : Cursor) (c : Char) :
    here.offset ≤ (here.advance c).offset := by
  simp

theorem Cursor.offset_lt_advance (here : Cursor) (c : Char) :
    here.offset < (here.advance c).offset := by
  have := c.utf8Size_pos
  rw [offset_advance]
  omega

theorem Cursor.offset_advance_eq {here : Cursor} {c : Char} (h : c.toNat < 0x80) :
    (here.advance c).offset = here.offset + 1 := by
  rw [offset_advance, Text.utf8Size_of_toNat_lt h]

/-- A tag that is sound stays sound after the next character. -/
theorem OpenTag.Sound.advance {limit place : Nat} {t : OpenTag}
    (h : t.Sound here.passed limit place)
    (c : Char) : t.Sound (here.advance c).passed limit place := by
  rw [Cursor.passed_advance]
  exact h.append_right [c]

theorem Stacked.advance {place : Nat} (h : Stacked here.passed place outer) (c : Char) :
    Stacked (here.advance c).passed place outer := by
  rw [Cursor.passed_advance]
  exact h.append_right [c]

theorem Forest.advance {lo hi : Nat} {es : List Element} (h : Forest here.passed lo es hi)
    (c : Char) :
    Forest (here.advance c).passed lo es hi := by
  rw [Cursor.passed_advance]
  exact h.append_right [c]

theorem OpenAttribute.Sound.advance {limit place : Nat} {a : OpenAttribute}
    (h : a.Sound here.passed limit place) (c : Char) :
    a.Sound (here.advance c).passed limit place := by
  rw [Cursor.passed_advance]
  exact h.append_right [c]

theorem OpenElement.Sound.advance {place : Nat} {e : OpenElement} (h : e.Sound here.passed place)
    (c : Char) : e.Sound (here.advance c).passed place := by
  rw [Cursor.passed_advance]
  exact h.append_right [c]

theorem Cursor.isBoundary_advance {place : Nat} (h : IsBoundary here.passed place) (c : Char) :
    IsBoundary (here.advance c).passed place := by
  rw [passed_advance]
  exact h.append_right [c]

/-- A script that was just entered is sound. -/
theorem Situation.Sound.entered {place : Nat} (hp : place ≤ here.offset)
    (waiting : Stacked here.passed place outer) : Sound here ⟨.script {} .between, outer⟩ := by
  have found : Forest here.passed place [] here.offset := .nil hp
  exact .script found (Nat.le_refl _) (by simp) waiting

theorem Situation.Sound.of_next {limit : Nat} {t : OpenTag}
    (tag : t.Sound here.passed limit limit) (hl : limit ≤ here.offset)
    (admits : Admits outer) (waiting : Stacked here.passed t.start outer)
    (next : t.Next outer here c s) : s.Sound (here.advance c) := by
  have tag' := tag.advance c
  have hl' := Nat.le_trans hl (here.offset_le_advance c)
  cases next with
  | blank =>
    refine .tag tag' ?_ admits (waiting.advance c)
    exact hl'
  | slash =>
    refine .tag tag' ?_ admits (waiting.advance c)
    exact hl'
  | close hc =>
    subst hc
    -- The closing bracket is one byte, so the content begins right behind it.
    have hoffset : (here.advance '>').offset = here.offset + 1 :=
      Cursor.offset_advance_eq (by decide)
    have element : OpenElement.Sound (here.advance '>').passed (here.offset + 1)
        ⟨t, here.offset + 1⟩ := by
      refine ⟨?_, here.hasAt_advance '>', Nat.le_refl _⟩
      exact (tag.advance '>').mono hl (Nat.le_succ_of_le hl)
    exact .content element (Nat.le_of_eq hoffset.symm) (by simp) admits (waiting.advance _)
  | braces =>
    exact .entered (here.offset_le_advance c) (.tag (tag.advance c) hl admits (waiting.advance c))
  | «attribute» hc =>
    have hstart := (here.hasAt_advance c).isBoundary
    refine .tag tag' ?_ admits (waiting.advance c)
    exact ⟨hl, here.offset_lt_advance c, hstart⟩

/-- A further attribute keeps an opening tag sound. -/
theorem OpenTag.Sound.addAttribute {source : List Char} {limit place stop : Nat} {t : OpenTag}
    {a : OpenAttribute} (h : t.Sound source limit place) (ha : a.Sound source limit stop)
    (hplace : place ≤ stop) (hstop : IsBoundary source stop) (value : Option Value) :
    (t.addAttribute a stop value).Sound source stop stop where
  opening := h.opening
  nameEnd_eq := h.nameEnd_eq
  attributes := h.attributes.concat ha.1 ha.2.1 (Nat.le_refl _) ha.2.2 hstop
  found := h.found.mono (Nat.le_refl _) hplace

/-- Elements found further on keep an opening tag sound. -/
theorem OpenTag.Sound.add {source : List Char} {limit place lo hi : Nat} {t : OpenTag}
    {es : List Element} (h : t.Sound source limit place) (hes : Forest source lo es hi)
    (hp : place ≤ lo) : (t.add es).Sound source limit hi where
  opening := h.opening
  nameEnd_eq := h.nameEnd_eq
  attributes := h.attributes
  found := h.found.append (hes.mono hp (Nat.le_refl _))

theorem Situation.Sound.of_nextAfterName {limit stop : Nat} {t : OpenTag} {a : OpenAttribute}
    (tag : t.Sound here.passed limit limit) (ha : a.Sound here.passed limit stop)
    (hle : stop ≤ here.offset) (hstop : IsBoundary here.passed stop) (admits : Admits outer)
    (waiting : Stacked here.passed t.start outer) (next : t.NextAfterName a stop outer here c s) :
    s.Sound (here.advance c) := by
  have hle' := Nat.le_trans hle (here.offset_le_advance c)
  have tag' := tag.advance c
  have ha' := ha.advance c
  cases next with
  | blank =>
    refine .tag tag' ?_ admits (waiting.advance c)
    exact ⟨ha', hle', Cursor.isBoundary_advance hstop c⟩
  | equals =>
    refine .tag tag' ?_ admits (waiting.advance c)
    exact ha'.mono hle'
  | commit _ _ next =>
    exact .of_next (tag.addAttribute ha ha.limit_le hstop none) hle admits waiting next

/-- The name of a tag is what was passed since its angle bracket. -/
theorem OpenTag.sound_named {start : Nat} (opening : HasAt here.passed start ['<']) :
    (OpenTag.named { start } here).Sound here.passed here.offset here.offset := by
  obtain ⟨before, name, hpassed, rfl⟩ := opening
  have hname : here.since (Text.byteLength before + 1) = name := by
    have h := Cursor.since_eq (show here.passed = (before ++ ['<']) ++ name from hpassed)
    simpa [show '<'.utf8Size = 1 from rfl] using h
  have hoffset : here.offset = Text.byteLength before + 1 + Text.byteLength name := by
    rw [here.offset_eq_byteLength, hpassed]
    simp [show '<'.utf8Size = 1 from rfl, Nat.add_assoc]
  refine ⟨⟨before, [], by simp [OpenTag.named, hname, hpassed], rfl⟩, ?_, .nil (Nat.le_refl _),
    .nil ?_⟩
  · simp [OpenTag.named, hname, hoffset]
  · show Text.byteLength before + 1 ≤ here.offset
    omega

theorem Situation.Sound.of_nextInName {start : Nat} (opening : HasAt here.passed start ['<'])
    (admits : Admits outer) (waiting : Stacked here.passed start outer)
    (next : OpenTag.NextInName { start } outer here c s) : s.Sound (here.advance c) := by
  cases next with
  | more =>
    refine .name ?_ admits (waiting.advance c)
    rw [Cursor.passed_advance]
    exact opening.append_right [c]
  | done _ next => exact .of_next (OpenTag.sound_named opening) (Nat.le_refl _) admits waiting next

/-- While the value of an attribute is due, a tag stays sound. -/
theorem Situation.Sound.awaiting {limit : Nat} {t : OpenTag} {a : OpenAttribute}
    {part : OpenTag.Part} (tag : t.Sound here.passed limit limit)
    (ha : a.Sound here.passed limit here.offset) (admits : Admits outer)
    (waiting : Stacked here.passed t.start outer)
    (due : ∀ {place}, a.Sound (here.advance c).passed limit place →
      part.Sound (here.advance c).passed limit place) :
    Sound (here.advance c) ⟨.tag t part, outer⟩ := by
  refine .tag (tag.advance c) (due ?_) admits (waiting.advance c)
  exact (ha.advance c).mono (here.offset_le_advance c)

/-- Leaving a part at `here` with elements that were found in it since `place`. -/
theorem Situation.Sound.of_left {place : Nat} {es : List Element}
    (found : Forest here.passed place es here.offset) (admits : Admits outer)
    (waiting : Stacked here.passed place outer) (left : Left es outer s) : s.Sound here := by
  cases left with
  | script s outer =>
    cases waiting with
    | script hs waiting => exact .script (hs.append found) (Nat.le_refl _) (by simp) waiting
  | content e outer =>
    cases waiting with
    | content element admits waiting =>
      refine .content ⟨element.tag.add found (Nat.le_refl _), element.openEnd, ?_⟩ (Nat.le_refl _)
        (by simp) admits waiting
      exact Nat.le_trans element.openEnd_le found.1.le
  -- What may be left belongs to a script or a content, so nothing is left astray.
  | astray _ hs hc =>
    unfold Admits at admits
    split at admits
    · exact absurd rfl (hs _ _)
    · exact absurd rfl (hc _ _)
    · exact admits.elim

theorem Situation.Sound.of_leftBraces {lo hi : Nat} {s : Script} {t : Situation}
    (found : Forest here.passed lo s.found hi) (hi_le : hi ≤ here.offset) (hc : c = '\x7d')
    (waiting : Stacked here.passed lo outer) (left : LeftBraces here s outer t) :
    t.Sound (here.advance c) := by
  have hle := Nat.le_trans hi_le (here.offset_le_advance c)
  have found' := (found.advance c).mono (Nat.le_refl lo) hle
  have waiting' := waiting.advance c
  -- What was found between the braces comes after what was found outside them before.
  cases left with
  | template t outer =>
    cases waiting' with
    | template ht hw => exact .template (ht.append found') hw
  | tag t outer =>
    cases waiting' with
    | tag tag limit_le admits waiting =>
      have hlimit := Nat.le_trans limit_le found'.1.le
      refine .tag ((tag.add found' limit_le).mono hlimit (Nat.le_refl _)) ?_ admits waiting
      exact Nat.le_refl _
  | value t a start outer =>
    subst hc
    have hoffset : (here.advance '\x7d').offset = here.offset + 1 :=
      Cursor.offset_advance_eq (by decide)
    cases waiting' with
    | value tag value admits waiting =>
      have hstop := (here.advance '\x7d').isBoundary
      rw [hoffset] at hstop
      have ha := value.mono (Nat.le_trans found'.1.le (Nat.le_of_eq hoffset))
      have tag' := tag.add found' value.limit_le
      refine .tag (tag'.addAttribute ha (Nat.le_of_eq hoffset) hstop _) ?_ admits waiting
      exact Nat.le_of_eq hoffset.symm
  | content e outer =>
    cases waiting' with
    | content element admits waiting =>
      refine .content ⟨element.tag.add found' (Nat.le_refl _), element.openEnd, ?_⟩ (Nat.le_refl _)
        (by simp) admits waiting
      exact Nat.le_trans element.openEnd_le found'.1.le

/-- The element that an opening tag and what was found since make up. -/
theorem OpenTag.Sound.forest {t : OpenTag} {limit openEnd : Nat} {selfClosing : Bool}
    (tag : t.Sound here.passed limit here.offset) (hlimit : limit ≤ openEnd - 1)
    (hopen : HasAt (here.advance '>').passed (openEnd - 1) ['>']) (hle : openEnd ≤ here.offset + 1)
    (hself : selfClosing = true → openEnd = here.offset + 1) :
    Forest (here.advance '>').passed t.start [t.element openEnd (here.offset + 1) selfClosing]
      (here.advance '>').offset := by
  have tag' := (tag.advance '>').mono hlimit (Nat.le_refl _)
  have sound : (t.element openEnd (here.offset + 1) selfClosing).Sound (here.advance '>').passed :=
    { opening := tag'.opening
      nameEnd_eq := tag'.nameEnd_eq
      attributes := tag'.attributes
      openEnd := hopen
      openEnd_le := hle
      stop := here.hasAt_advance '>'
      selfClosing := hself
      children := tag'.found.1 }
  refine (Forest.singleton sound tag'.found.2 ?_).mono (Nat.le_refl _) (Nat.le_of_eq ?_)
  · show t.start < here.offset + 1
    have := tag'.found.1.le
    omega
  · exact (Cursor.offset_advance_eq (by decide)).symm

/-- An angle bracket that was just read stands behind all that ends before it. -/
theorem Cursor.angle_advance {hi o : Nat} (hi_le : hi ≤ here.offset)
    (h : c = '<' ∧ o = here.offset) :
    hi ≤ o ∧ HasAt (here.advance c).passed o ['<'] ∧ (here.advance c).offset = o + 1 := by
  obtain ⟨rfl, rfl⟩ := h
  exact ⟨hi_le, here.hasAt_advance '<', Cursor.offset_advance_eq (by decide)⟩

theorem Situation.Sound.move_script {script : Script} {part : Script.Part}
    (h : Sound here ⟨.script script part, outer⟩)
    (m : Move here c ⟨.script script part, outer⟩ s) : s.Sound (here.advance c) := by
  obtain ⟨found, hi_le, angle, waiting⟩ := h
  cases m with
  | script found' angle' =>
    rw [← found'] at found
    exact .script (found.advance c) (Nat.le_trans hi_le (here.offset_le_advance c))
      (fun o ho => Cursor.angle_advance hi_le (angle' o ho)) (waiting.advance c)
  | enterTemplate found' =>
    rw [← found'] at found
    exact .template (.nil (here.offset_le_advance c))
      (.script ((found.mono (Nat.le_refl _) hi_le).advance c) (waiting.advance c))
  | leaveBraces hc found' left =>
    rw [← found'] at found
    exact .of_leftBraces found hi_le hc waiting left
  | scriptElement _ next =>
    -- What was found ends before the angle bracket, where the new element begins.
    obtain ⟨hle, opening, -⟩ := angle _ rfl
    exact .of_nextInName opening (.script _ _) (.script (found.mono (Nat.le_refl _) hle) waiting)
      next

theorem Situation.Sound.move_template {t : Template} {part : Template.Part}
    (h : Sound here ⟨.template t part, outer⟩) (m : Move here c ⟨.template t part, outer⟩ s) :
    s.Sound (here.advance c) := by
  cases h with
  | template found waiting =>
    have found' := (found.mono (Nat.le_refl _) (here.offset_le_advance c)).advance c
    have waiting' := waiting.advance c
    cases m with
    | template => exact .template found' waiting'
    | enterSubstitution =>
      exact .entered (here.offset_le_advance c) (.template (found.advance c) waiting')
    | leaveTemplate left => exact .of_left found' (.script _ _) waiting' left

/-- The closing quote of a value completes its attribute. -/
theorem OpenTag.Sound.unquoted {limit : Nat} {t : OpenTag} {a : OpenAttribute}
    (tag : t.Sound here.passed limit limit) (ha : a.Sound here.passed limit here.offset)
    (hc : c.toNat < 0x80) (value : Option Value) :
    (t.addAttribute a (here.offset + 1) value).Sound (here.advance c).passed (here.offset + 1)
      (here.offset + 1) := by
  have hoffset : (here.advance c).offset = here.offset + 1 := Cursor.offset_advance_eq hc
  have hstop := (here.advance c).isBoundary
  have ha' := (ha.advance c).mono (here.offset_le_advance c)
  rw [hoffset] at hstop ha'
  exact (tag.advance c).addAttribute ha' ha'.limit_le hstop value

theorem Situation.Sound.move_tag {t : OpenTag} {part : OpenTag.Part}
    (h : Sound here ⟨.tag t part, outer⟩) (m : Move here c ⟨.tag t part, outer⟩ s) :
    s.Sound (here.advance c) := by
  cases h with
  | name opening admits waiting =>
    cases m with
    | name next => exact .of_nextInName opening admits waiting next
  | tag tag pending admits waiting =>
    have tag' := tag.advance c
    have waiting' := waiting.advance c
    cases m with
    | name => exact pending.elim
    | tag next => exact .of_next tag pending admits waiting next
    | selfClose hc left =>
      subst hc
      have hopen : HasAt (here.advance '>').passed (here.offset + 1 - 1) ['>'] :=
        here.hasAt_advance '>'
      have found := tag.mono (Nat.le_refl _) pending
      exact .of_left (found.forest pending hopen (Nat.le_refl _) fun _ => rfl) admits waiting' left
    | «attribute» _ =>
      obtain ⟨hle, hlt, hb⟩ := pending
      have hlt' := Nat.lt_trans hlt (here.offset_lt_advance c)
      exact .tag tag' ⟨hle, hlt', Cursor.isBoundary_advance hb c⟩ admits waiting'
    | attributeName _ next =>
      obtain ⟨hle, hlt, hb⟩ := pending
      exact .of_nextAfterName tag ⟨hle, hlt, hb⟩ (Nat.le_refl _) here.isBoundary admits waiting next
    | gap next =>
      obtain ⟨ha, hle, hb⟩ := pending
      exact .of_nextAfterName tag ha hle hb admits waiting next
    | equals _ => exact .awaiting tag pending admits waiting id
    | quote hc =>
      refine .awaiting tag pending admits waiting fun ha => ⟨ha, ?_⟩
      rcases hc with rfl | rfl <;> decide
    | enterValue _ =>
      exact .entered (here.offset_le_advance c)
        (.value tag' (OpenAttribute.Sound.advance pending c) admits waiting')
    | quoted => exact .awaiting tag pending.1 admits waiting fun ha => ⟨ha, pending.2⟩
    | unquote =>
      have hoffset : (here.advance c).offset = here.offset + 1 :=
        Cursor.offset_advance_eq pending.2
      exact .tag (tag.unquoted pending.1 pending.2 _) (Nat.le_of_eq hoffset.symm) admits waiting'

theorem Situation.Sound.move_content {e : OpenElement} {part : OpenElement.Part}
    (h : Sound here ⟨.content e part, outer⟩) (m : Move here c ⟨.content e part, outer⟩ s) :
    s.Sound (here.advance c) := by
  cases h with
  | content element hi_le angle admits waiting =>
    have waiting' := waiting.advance c
    cases m with
    | content angle' =>
      exact .content (element.advance c) (Nat.le_trans hi_le (here.offset_le_advance c))
        (fun o ho => Cursor.angle_advance hi_le (angle' o ho)) admits waiting'
    | enterBraces =>
      exact .entered (here.offset_le_advance c)
        (.content ((element.mono hi_le).advance c) admits waiting')
    | contentElement _ next =>
      -- What is inside the element so far ends before the angle bracket of the new one.
      obtain ⟨hle, opening, -⟩ := angle _ rfl
      exact .of_nextInName opening (.content _ _) (.content (element.mono hle) admits waiting) next
    | close hc left =>
      subst hc
      have element' := element.mono hi_le
      exact .of_left (element'.tag.forest (Nat.le_refl _) (element'.advance '>').openEnd
        (Nat.le_succ_of_le element'.openEnd_le) (by simp)) admits waiting' left

/-- A move keeps a situation sound. -/
theorem Situation.Sound.move {s s' : Situation} (h : s.Sound here) (m : Move here c s s') :
    s'.Sound (here.advance c) := by
  obtain ⟨focus, outer⟩ := s
  cases focus with
  | script => exact h.move_script m
  | template => exact h.move_template m
  | tag => exact h.move_tag m
  | content => exact h.move_content m

end Move

/-! ### What a scan keeps -/

/-- A scan that begins with nothing recorded is sound. -/
theorem Scan.sound_start : Scan.start.situation.Sound Scan.start.cursor :=
  .entered (Nat.le_refl 0) .nil

/-- Whatever was read, what was recorded is sound. -/
theorem Scan.sound_of_run {t : Scan} {cs : List Char} (h : Scan.start.run cs = .ok t) :
    t.situation.Sound t.cursor := by
  refine run_invariant (P := fun s => s.situation.Sound s.cursor) ?_ sound_start h
  intro s t c hs hstep
  obtain ⟨x, hread, rfl⟩ := step_eq_ok_iff.1 hstep
  exact hs.move (.of_read hread)

/-- The elements of a text are sound and lie side by side within it. -/
theorem forest_of_scan {source : List Char} {es : List Element} (h : scan source = .ok es) :
    Forest source 0 es (Text.byteLength source) := by
  obtain ⟨here, s, part, hrun, -, -, rfl⟩ := scan_eq_ok_iff.1 h
  have hpassed := Scan.passed_of_run_start hrun
  have hoffset := Scan.offset_of_run_start hrun
  simp only at hpassed hoffset
  cases Scan.sound_of_run hrun with
  | script found hi_le _ _ =>
    rw [← hpassed, hpassed, ← hoffset]
    exact hpassed ▸ found.mono (Nat.zero_le _) hi_le

end Mockup.Jsx
