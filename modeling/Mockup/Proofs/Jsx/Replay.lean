import Mockup.Proofs.Jsx.Kept
import Mockup.Proofs.Jsx.Reads

/-!
# Reading on after an edit

A text and the edited text end alike. Two scans that stand at the ends of the replaced text and of
the new one, in situations that the edit keeps, read the rest alike: each character that the first
scan reads, the second one reads too, and the situations stay kept. So the elements of the edited
text are those that the edit keeps.

## Main results

* `Situation.Kept.read`: a character keeps situations kept.
* `Situation.Kept.reads`: so does a text.
* `Situation.Kept.finish`: at the end of the text, the elements are kept.
-/

namespace Mockup.Jsx

variable {d : Splice}

/-! ### Places -/

/-- Two cursors that have passed the same text since the edit. -/
def Cursor.Kept (d : Splice) (here here' : Cursor) : Prop :=
  ∃ before before' rest, here.passed = before ++ rest ∧ here'.passed = before' ++ rest ∧
    Text.byteLength before = d.stop ∧ Text.byteLength before' = d.newStop

namespace Cursor.Kept

variable {here here' : Cursor}

theorem advance (h : here.Kept d here') (c : Char) : (here.advance c).Kept d (here'.advance c) := by
  obtain ⟨before, before', rest, hpassed, hpassed', hlen, hlen'⟩ := h
  exact ⟨before, before', rest ++ [c], by simp [hpassed], by simp [hpassed'], hlen, hlen'⟩

/-- The cursors stand after the edit. -/
theorem after (h : here.Kept d here') : d.After here.offset here'.offset := by
  obtain ⟨before, before', rest, hpassed, hpassed', hlen, hlen'⟩ := h
  rw [here.offset_eq_byteLength, here'.offset_eq_byteLength, hpassed, hpassed']
  simp only [Text.byteLength_append, hlen, hlen']
  constructor <;> omega

/-- The text since a place after the edit is the same. -/
theorem since_eq (h : here.Kept d here') {place place' : Nat} (hplace : d.After place place') :
    here'.since place' = here.since place := by
  have hoffset := h.after
  obtain ⟨before, before', rest, hpassed, hpassed', hlen, hlen'⟩ := h
  have hbehind : here.behind = rest.reverse ++ before.reverse := by
    rw [← List.reverse_reverse here.behind, ← Cursor.passed, hpassed, List.reverse_append]
  have hbehind' : here'.behind = rest.reverse ++ before'.reverse := by
    rw [← List.reverse_reverse here'.behind, ← Cursor.passed, hpassed', List.reverse_append]
  have hlength : here.offset - place ≤ Text.byteLength rest.reverse := by
    have hle := hplace.1
    rw [here.offset_eq_byteLength, hpassed, Text.byteLength_append, hlen, Text.byteLength_reverse]
    omega
  have hsame : here'.offset - place' = here.offset - place := by
    obtain ⟨hle, heq⟩ := hplace
    obtain ⟨hle', heq'⟩ := hoffset
    omega
  rw [since, since, hsame, hbehind, hbehind', Text.takeBytes_append_of_le hlength,
    Text.takeBytes_append_of_le hlength]

end Cursor.Kept

/-! ### Situations -/

/-- A script whose control stays the same and whose elements are kept. -/
structure Script.Kept (d : Splice) (s s' : Script) : Prop where
  due : s'.due = s.due
  previous : s'.previous = s.previous
  found : Jsx.Kept d s.found s'.found

/-- Equal parts of scripts, but for places after the edit. -/
inductive Script.Part.Kept (d : Splice) : Script.Part → Script.Part → Prop
  | between : Kept d .between .between
  | word {start start' : Nat} (h : d.After start start') : Kept d (.word start) (.word start')
  | string {start start' : Nat} (quote : Char) (escaped : Bool) :
    Kept d (.string quote start escaped) (.string quote start' escaped)
  | slash {start start' : Nat} : Kept d (.slash start) (.slash start')
  | lineComment : Kept d .lineComment .lineComment
  | blockComment {start start' : Nat} (starred : Bool) :
    Kept d (.blockComment start starred) (.blockComment start' starred)
  | pattern {start start' : Nat} (inClass escaped : Bool) :
    Kept d (.pattern start inClass escaped) (.pattern start' inClass escaped)
  | flags : Kept d .flags .flags
  | angle {start start' : Nat} (h : d.After start start') : Kept d (.angle start) (.angle start')

/-- An opening tag with what the edit keeps of it. -/
structure OpenTag.Kept (d : Splice) (t t' : OpenTag) : Prop where
  name : t'.name = t.name
  start : d.Begun t.start t'.start
  nameEnd : d.Moved t.nameEnd t'.nameEnd
  attributes : AttributesKept d t.start t.attributes t'.attributes
  found : Jsx.Kept d t.found t'.found

/-- An attribute whose value is due, which is not the one that is overwritten. -/
structure OpenAttribute.Kept (d : Splice) (a a' : OpenAttribute) : Prop where
  name : a'.name = a.name
  start : d.Moved a.start a'.start
  notWritten : d.start < d.stop → a.start ≠ d.start

/-- An attribute that began after the edit is not the one that is overwritten. -/
theorem OpenAttribute.Kept.of_after (name : String) {start start' : Nat}
    (h : d.After start start') : OpenAttribute.Kept d ⟨name, start⟩ ⟨name, start'⟩ where
  name := rfl
  start := h.moved
  notWritten hlt := by
    have hle := h.1
    show start ≠ d.start
    omega

/-- Equal parts of opening tags, but for places. -/
inductive OpenTag.Part.Kept (d : Splice) (t t' : OpenTag) : OpenTag.Part → OpenTag.Part → Prop
  | name (h : d.After t.start t'.start) : Kept d t t' .name .name
  | between : Kept d t t' .between .between
  | slash {start start' : Nat} : Kept d t t' (.slash start) (.slash start')
  | attribute {start start' : Nat} (h : d.After start start') :
    Kept d t t' (.attribute start) (.attribute start')
  | gap {a a' : OpenAttribute} {stop stop' : Nat} (h : a.Kept d a') (hstop : d.Moved stop stop') :
    Kept d t t' (.gap a stop) (.gap a' stop')
  | equals {a a' : OpenAttribute} (h : a.Kept d a') : Kept d t t' (.equals a) (.equals a')
  | quoted {a a' : OpenAttribute} {start start' : Nat} (quote : Char) (h : a.Kept d a')
    (hstart : d.After start start') : Kept d t t' (.quoted a quote start) (.quoted a' quote start')

/-- An element whose content is read, with what the edit keeps of it. -/
structure OpenElement.Kept (d : Splice) (e e' : OpenElement) : Prop where
  tag : e.tag.Kept d e'.tag
  openEnd : d.Moved e.openEnd e'.openEnd

/-- Equal parts of contents, but for places after the edit. -/
inductive OpenElement.Part.Kept (d : Splice) : OpenElement.Part → OpenElement.Part → Prop
  | between : Kept d .between .between
  | angle {start start' : Nat} (h : d.After start start') : Kept d (.angle start) (.angle start')
  | closing {start start' : Nat} (h : d.After start start') :
    Kept d (.closing start) (.closing start')

/-- What waits, with what the edit keeps of it. -/
inductive Context.Kept (d : Splice) : Context → Context → Prop
  | script {s s' : Script} (h : s.Kept d s') : Kept d (.script s) (.script s')
  | template {t t' : Template} (h : Jsx.Kept d t.found t'.found) :
    Kept d (.template t) (.template t')
  | tag {t t' : OpenTag} (h : t.Kept d t') : Kept d (.tag t none) (.tag t' none)
  /-- The value began after the edit, or the edit is in it. -/
  | value {t t' : OpenTag} {a a' : OpenAttribute} {start start' : Nat} (h : t.Kept d t')
    (ha : a.Kept d a') (hstart : d.After start start' ∨ a.start < d.start) :
    Kept d (.tag t (some (a, start))) (.tag t' (some (a', start')))
  | content {e e' : OpenElement} (h : e.Kept d e') : Kept d (.content e) (.content e')

/-- Two situations of the same kind, with what the edit keeps. -/
inductive Situation.Kept (d : Splice) : Situation → Situation → Prop
  | script {s s' : Script} {part part' : Script.Part} {outer outer' : List Context}
    (h : s.Kept d s') (hpart : part.Kept d part')
    (waiting : List.Forall₂ (Context.Kept d) outer outer') :
    Kept d ⟨.script s part, outer⟩ ⟨.script s' part', outer'⟩
  | template {t t' : Template} {outer outer' : List Context} (h : Jsx.Kept d t.found t'.found)
    (part : Template.Part) (waiting : List.Forall₂ (Context.Kept d) outer outer') :
    Kept d ⟨.template t part, outer⟩ ⟨.template t' part, outer'⟩
  | tag {t t' : OpenTag} {part part' : OpenTag.Part} {outer outer' : List Context}
    (h : t.Kept d t') (hpart : part.Kept d t t' part')
    (waiting : List.Forall₂ (Context.Kept d) outer outer') :
    Kept d ⟨.tag t part, outer⟩ ⟨.tag t' part', outer'⟩
  | content {e e' : OpenElement} {part part' : OpenElement.Part} {outer outer' : List Context}
    (h : e.Kept d e') (hpart : part.Kept d part')
    (waiting : List.Forall₂ (Context.Kept d) outer outer') :
    Kept d ⟨.content e part, outer⟩ ⟨.content e' part', outer'⟩

/-! ### Outcomes -/

/-- Whatever the first outcome is, if it is no failure, the second is what the edit keeps of it. -/
def ScannedKept (d : Splice) (x x' : Scanned) : Prop :=
  ∀ s, x = .ok s → ∃ s', x' = .ok s' ∧ s.Kept d s'

namespace ScannedKept

theorem ok {s s' : Situation} (h : s.Kept d s') : ScannedKept d (.ok s) (.ok s') := by
  rintro _ ⟨⟩
  exact ⟨s', rfl, h⟩

theorem failAt {offset : Nat} {cause : ScanError.Cause} {x : Scanned} :
    ScannedKept d (Jsx.failAt offset cause) x := by
  intro s hs
  simp at hs

/-- Both outcomes depend on the same condition. -/
theorem ite {p : Prop} [Decidable p] {x y x' y' : Scanned} (hx : p → ScannedKept d x x')
    (hy : ¬p → ScannedKept d y y') :
    ScannedKept d (if p then x else y) (if p then x' else y') := by
  by_cases hp : p
  · rw [if_pos hp, if_pos hp]
    exact hx hp
  · rw [if_neg hp, if_neg hp]
    exact hy hp

end ScannedKept

/-! ### Going in and out -/

section Steps

variable {here here' : Cursor} {outer outer' : List Context} {c : Char}

theorem kept_goOnScript {s s' : Script} {part part' : Script.Part} (h : s.Kept d s')
    (hpart : part.Kept d part') (waiting : List.Forall₂ (Context.Kept d) outer outer') :
    ScannedKept d (s.goOn part outer) (s'.goOn part' outer') :=
  .ok (.script h hpart waiting)

theorem kept_goOnTag {t t' : OpenTag} {part part' : OpenTag.Part} (h : t.Kept d t')
    (hpart : part.Kept d t t' part') (waiting : List.Forall₂ (Context.Kept d) outer outer') :
    ScannedKept d (t.goOn part outer) (t'.goOn part' outer') :=
  .ok (.tag h hpart waiting)

theorem kept_goOnContent {e e' : OpenElement} {part part' : OpenElement.Part} (h : e.Kept d e')
    (hpart : part.Kept d part') (waiting : List.Forall₂ (Context.Kept d) outer outer') :
    ScannedKept d (e.goOn part outer) (e'.goOn part' outer') :=
  .ok (.content h hpart waiting)

theorem kept_enterBraces (waiting : List.Forall₂ (Context.Kept d) outer outer') :
    ScannedKept d (enterBraces outer) (enterBraces outer') :=
  kept_goOnScript ⟨rfl, rfl, .nil⟩ .between waiting

/-- Elements found in a tag are kept after those before them. -/
theorem OpenTag.Kept.add {t t' : OpenTag} {es es' : List Element} (h : t.Kept d t')
    (hes : Jsx.Kept d es es') : (t.add es).Kept d (t'.add es') :=
  { h with found := h.found.append hes }

theorem OpenElement.Kept.add {e e' : OpenElement} {es es' : List Element} (h : e.Kept d e')
    (hes : Jsx.Kept d es es') : (e.add es).Kept d (e'.add es') :=
  { h with tag := h.tag.add hes }

theorem Script.Kept.afterValue {s s' : Script} {es es' : List Element} (h : s.Kept d s')
    (hes : Jsx.Kept d es es') : (s.afterValue es).Kept d (s'.afterValue es') :=
  ⟨h.due, rfl, h.found.append hes⟩

/-- A further attribute, which ends after the edit. -/
theorem OpenTag.Kept.addAttribute {t t' : OpenTag} {a a' : OpenAttribute} {stop stop' : Nat}
    {value value' : Option Value} (h : t.Kept d t') (ha : a.Kept d a') (hstop : d.Moved stop stop')
    (hvalue : ¬d.EnclosedBy ⟨a.name, a.start, stop, value⟩ → value' = value) :
    (t.addAttribute a stop value).Kept d (t'.addAttribute a' stop' value') := by
  have added : AttributeKept d t.start ⟨a.name, a.start, stop, value⟩
      ⟨a'.name, a'.start, stop', value'⟩ :=
    { name := ha.name
      start := ha.start
      stop := hstop
      value := fun houtside _ => hvalue houtside
      written := fun hover => absurd hover.2.2 (ha.notWritten hover.1) }
  exact { h with attributes := h.attributes.concat added }

/-- A tag that ends after the edit makes an element that is kept. -/
theorem OpenTag.Kept.element {t t' : OpenTag} {openEnd openEnd' stop stop' : Nat}
    {selfClosing : Bool} (h : t.Kept d t') (hopenEnd : d.Moved openEnd openEnd')
    (hstop : d.After stop stop') (hlt : d.stop < stop) :
    Jsx.Kept d [t.element openEnd stop selfClosing] [t'.element openEnd' stop' selfClosing] := by
  have element : ElementKept d (t.element openEnd stop selfClosing)
      (t'.element openEnd' stop' selfClosing) :=
    { tag := h.name
      selfClosing := rfl
      sited := by
        rcases h.start with ⟨howner, hstart⟩ | hstart
        · exact .around howner hstart hlt hstop
        · exact .after hstart hstop
      nameEnd := h.nameEnd
      openEnd := hopenEnd
      attributes := h.attributes }
  have hkept := Jsx.Kept.singleton (d.drops_eq_false (.inr hlt)) element h.found
  have hle := d.start_le
  have hne : stop ≠ d.start := by omega
  rwa [show (t.element openEnd stop selfClosing).stop = stop from rfl,
    Splice.insertedAfter_of_ne hne] at hkept

theorem kept_leave {inner inner' : List Element} (h : Kept d inner inner')
    (waiting : List.Forall₂ (Context.Kept d) outer outer') :
    ScannedKept d (leave inner outer) (leave inner' outer') := by
  have astray : ScannedKept d ((Script.afterValue {} inner).goOn .between outer)
      ((Script.afterValue {} inner').goOn .between outer') :=
    kept_goOnScript ⟨rfl, rfl, h⟩ .between waiting
  cases waiting with
  | nil => exact astray
  | cons hcontext rest =>
    cases hcontext with
    | script hs => exact kept_goOnScript (hs.afterValue h) .between rest
    | content he => exact kept_goOnContent (he.add h) .between rest
    | template | tag | value => exact astray

theorem kept_leaveBraces {s s' : Script} (hhere : here.Kept d here') (h : s.Kept d s')
    (waiting : List.Forall₂ (Context.Kept d) outer outer') :
    ScannedKept d (leaveBraces here s outer) (leaveBraces here' s' outer') := by
  cases waiting with
  | nil => exact .failAt
  | cons hcontext rest =>
    cases hcontext with
    | script => exact .failAt
    | template ht => exact .ok (.template (ht.append h.found) .between rest)
    | tag ht => exact kept_goOnTag (ht.add h.found) .between rest
    | content he => exact kept_goOnContent (he.add h.found) .between rest
    | value ht ha hstart =>
      have hstop := hhere.after.add 1
      refine kept_goOnTag ((ht.add h.found).addAttribute ha hstop.moved fun houtside => ?_) .between
        rest
      -- The edit is not in the attribute, so the value began after it.
      rcases hstart with hstart | hbefore
      · rw [hhere.since_eq (hstart.add 1)]
      · exact absurd ⟨hbefore, Nat.lt_succ_of_le hhere.after.1⟩ houtside

/-! ### Reading a character of an opening tag -/

theorem kept_readBetweenTag {t t' : OpenTag} (hhere : here.Kept d here') (h : t.Kept d t')
    (waiting : List.Forall₂ (Context.Kept d) outer outer') :
    ScannedKept d (t.readBetween outer here c) (t'.readBetween outer' here' c) := by
  unfold OpenTag.readBetween
  refine .ite (fun _ => kept_goOnTag h .between waiting) fun _ => ?_
  refine .ite (fun _ => kept_goOnTag h .slash waiting) fun _ => ?_
  refine .ite (fun _ => kept_goOnContent ⟨h, (hhere.after.add 1).moved⟩ .between waiting)
    fun _ => ?_
  refine .ite (fun _ => kept_enterBraces (.cons (.tag h) waiting)) fun _ => ?_
  exact .ite (fun _ => kept_goOnTag h (.attribute hhere.after) waiting) fun _ => .failAt

theorem kept_readGap {t t' : OpenTag} {a a' : OpenAttribute} {stop stop' : Nat}
    (hhere : here.Kept d here') (h : t.Kept d t') (ha : a.Kept d a') (hstop : d.Moved stop stop')
    (waiting : List.Forall₂ (Context.Kept d) outer outer') :
    ScannedKept d (t.readGap a stop outer here c) (t'.readGap a' stop' outer' here' c) := by
  unfold OpenTag.readGap
  refine .ite (fun _ => kept_goOnTag h (.gap ha hstop) waiting) fun _ => ?_
  refine .ite (fun _ => kept_goOnTag h (.equals ha) waiting) fun _ => ?_
  exact kept_readBetweenTag hhere (h.addAttribute ha hstop fun _ => rfl) waiting

theorem kept_readTag {t t' : OpenTag} {part part' : OpenTag.Part} (hhere : here.Kept d here')
    (h : t.Kept d t') (hpart : part.Kept d t t' part')
    (waiting : List.Forall₂ (Context.Kept d) outer outer') :
    ScannedKept d (t.read outer here c part) (t'.read outer' here' c part') := by
  cases hpart with
  | name hstart =>
    simp only [OpenTag.read]
    refine .ite (fun _ => kept_goOnTag h (.name hstart) waiting) fun _ => ?_
    rw [hhere.since_eq (hstart.add 1)]
    exact kept_readBetweenTag hhere { h with name := rfl, nameEnd := hhere.after.moved } waiting
  | between => exact kept_readBetweenTag hhere h waiting
  | slash =>
    simp only [OpenTag.read]
    have hstop := hhere.after.add 1
    -- The element ends behind the replaced text, so it is one that the edit keeps.
    have hlt : d.stop < here.offset + 1 := Nat.lt_succ_of_le hhere.after.1
    exact .ite (fun _ => kept_leave (h.element hstop.moved hstop hlt) waiting) fun _ => .failAt
  | «attribute» hstart =>
    simp only [OpenTag.read]
    refine .ite (fun _ => kept_goOnTag h (.attribute hstart) waiting) fun _ => ?_
    rw [hhere.since_eq hstart]
    exact kept_readGap hhere h (.of_after _ hstart) hhere.after.moved waiting
  | gap ha hstop => exact kept_readGap hhere h ha hstop waiting
  | equals ha =>
    simp only [OpenTag.read]
    refine .ite (fun _ => kept_goOnTag h (.equals ha) waiting) fun _ => ?_
    refine .ite (fun _ => kept_goOnTag h (.quoted c ha hhere.after) waiting) fun _ => ?_
    exact .ite (fun _ => kept_enterBraces (.cons (.value h ha (.inl hhere.after)) waiting))
      fun _ => .failAt
  | quoted quote ha hstart =>
    simp only [OpenTag.read]
    refine .ite (fun _ => ?_) fun _ => kept_goOnTag h (.quoted quote ha hstart) waiting
    refine kept_goOnTag (h.addAttribute ha (hhere.after.add 1).moved fun _ => ?_) .between waiting
    rw [hhere.since_eq (hstart.add 1)]

/-- A tag that opens after the edit. -/
theorem kept_openTag {start start' : Nat} (h : d.After start start') :
    OpenTag.Kept d { start } { start := start' } where
  name := rfl
  start := .inr h
  nameEnd := h.moved
  attributes := ⟨[], [], by simp [Splice.addedTo_of_ne h.ne_owner], .nil⟩
  found := .nil

theorem kept_readTagName {start start' : Nat} (hhere : here.Kept d here')
    (h : d.After start start') (waiting : List.Forall₂ (Context.Kept d) outer outer') :
    ScannedKept d (OpenTag.read { start } outer here c .name)
      (OpenTag.read { start := start' } outer' here' c .name) :=
  kept_readTag hhere (kept_openTag h) (.name h) waiting

/-! ### Reading a character of a content -/

theorem kept_readContentBetween {e e' : OpenElement} (hhere : here.Kept d here') (h : e.Kept d e')
    (waiting : List.Forall₂ (Context.Kept d) outer outer') :
    ScannedKept d (e.readBetween outer here c) (e'.readBetween outer' here' c) := by
  unfold OpenElement.readBetween
  refine .ite (fun _ => kept_goOnContent h (.angle hhere.after) waiting) fun _ => ?_
  refine .ite (fun _ => kept_enterBraces (.cons (.content h) waiting)) fun _ => ?_
  exact kept_goOnContent h .between waiting

/-- A closing tag after the edit has the same name. -/
theorem kept_close {e e' : OpenElement} {start start' : Nat} (hhere : here.Kept d here')
    (h : e.Kept d e') (hstart : d.After start start')
    (waiting : List.Forall₂ (Context.Kept d) outer outer') :
    ScannedKept d (e.close start outer here) (e'.close start' outer' here') := by
  unfold OpenElement.close
  rw [hhere.since_eq (hstart.add 2), h.tag.name]
  refine .ite (fun _ => ?_) fun _ => .failAt
  exact kept_leave (h.tag.element h.openEnd (hhere.after.add 1) (Nat.lt_succ_of_le hhere.after.1))
    waiting

theorem kept_readContent {e e' : OpenElement} {part part' : OpenElement.Part}
    (hhere : here.Kept d here') (h : e.Kept d e') (hpart : part.Kept d part')
    (waiting : List.Forall₂ (Context.Kept d) outer outer') :
    ScannedKept d (e.read outer here c part) (e'.read outer' here' c part') := by
  cases hpart with
  | between => exact kept_readContentBetween hhere h waiting
  | angle hstart =>
    simp only [OpenElement.read]
    refine .ite (fun _ => kept_goOnContent h (.closing hstart) waiting) fun _ => ?_
    refine .ite (fun _ => ?_) fun _ => kept_readContentBetween hhere h waiting
    exact kept_readTagName hhere hstart (.cons (.content h) waiting)
  | closing hstart =>
    simp only [OpenElement.read]
    exact .ite (fun _ => kept_close hhere h hstart waiting)
      fun _ => kept_goOnContent h (.closing hstart) waiting

/-! ### Reading a character of a template -/

theorem kept_goOnTemplate {t t' : Template} (part : Template.Part) (h : Kept d t.found t'.found)
    (waiting : List.Forall₂ (Context.Kept d) outer outer') :
    ScannedKept d (t.goOn part outer) (t'.goOn part outer') :=
  .ok (.template h part waiting)

theorem kept_readTemplate {t t' : Template} (part : Template.Part) (h : Kept d t.found t'.found)
    (waiting : List.Forall₂ (Context.Kept d) outer outer') :
    ScannedKept d (t.read outer c part) (t'.read outer' c part) := by
  have between : ScannedKept d (t.readBetween outer c) (t'.readBetween outer' c) := by
    unfold Template.readBetween
    refine .ite (fun _ => kept_goOnTemplate _ h waiting) fun _ => ?_
    refine .ite (fun _ => kept_leave h waiting) fun _ => ?_
    exact .ite (fun _ => kept_goOnTemplate _ h waiting) fun _ => kept_goOnTemplate _ h waiting
  cases part with
  | between => exact between
  | escaped => exact kept_goOnTemplate _ h waiting
  | dollar =>
    simp only [Template.read]
    exact .ite (fun _ => kept_enterBraces (.cons (.template h) waiting)) fun _ => between

/-! ### Reading a character of a script -/

/-- Scripts that are kept stay so under a change of what came last. -/
theorem Script.Kept.withPrevious {s s' : Script} (h : s.Kept d s') (previous : Previous) :
    Script.Kept d { s with previous } { s' with previous } :=
  { h with previous := rfl }

theorem Script.Kept.afterWord {s s' : Script} (h : s.Kept d s') (word : List Char) :
    (s.afterWord word).Kept d (s'.afterWord word) :=
  h.withPrevious _

theorem kept_readClosing {s s' : Script} (hhere : here.Kept d here') (h : s.Kept d s')
    (waiting : List.Forall₂ (Context.Kept d) outer outer') :
    ScannedKept d (s.readClosing outer here c) (s'.readClosing outer' here' c) := by
  unfold Script.readClosing
  rw [h.due]
  cases s.due with
  | nil => exact .ite (fun _ => kept_leaveBraces hhere h waiting) fun _ => .failAt
  | cons b due =>
    exact .ite (fun _ => kept_goOnScript ⟨rfl, rfl, h.found⟩ .between waiting) fun _ => .failAt

theorem kept_readScriptBetween {s s' : Script} (hhere : here.Kept d here') (h : s.Kept d s')
    (waiting : List.Forall₂ (Context.Kept d) outer outer') :
    ScannedKept d (s.readBetween outer here c) (s'.readBetween outer' here' c) := by
  unfold Script.readBetween
  rw [h.previous]
  refine .ite (fun _ => kept_goOnScript h (.string c false) waiting) fun _ => ?_
  refine .ite (fun _ => kept_goOnTemplate _ .nil (.cons (.script h) waiting)) fun _ => ?_
  refine .ite (fun _ => kept_goOnScript h .slash waiting) fun _ => ?_
  refine .ite (fun _ => kept_goOnScript h (.angle hhere.after) waiting) fun _ => ?_
  refine .ite (fun _ => kept_readClosing hhere h waiting) fun _ => ?_
  refine .ite (fun _ => kept_goOnScript h .between waiting) fun _ => ?_
  refine .ite (fun _ => kept_goOnScript h (.word hhere.after) waiting) fun _ => ?_
  cases closing? c with
  | none => exact kept_goOnScript (h.withPrevious _) .between waiting
  | some b => exact kept_goOnScript ⟨by simp [h.due], rfl, h.found⟩ .between waiting

theorem kept_readString {s s' : Script} {start start' : Nat} {quote : Char} {escaped : Bool}
    (h : s.Kept d s') (waiting : List.Forall₂ (Context.Kept d) outer outer') :
    ScannedKept d (s.readString outer quote start escaped c)
      (s'.readString outer' quote start' escaped c) := by
  unfold Script.readString
  refine .ite (fun _ => kept_goOnScript h (.string ..) waiting) fun _ => ?_
  refine .ite (fun _ => kept_goOnScript h (.string ..) waiting) fun _ => ?_
  refine .ite (fun _ => .failAt) fun _ => ?_
  exact .ite (fun _ => kept_goOnScript (h.afterValue .nil) .between waiting)
    fun _ => kept_goOnScript h (.string ..) waiting

theorem kept_readPattern {s s' : Script} {start start' : Nat} {inClass escaped : Bool}
    (h : s.Kept d s') (waiting : List.Forall₂ (Context.Kept d) outer outer') :
    ScannedKept d (s.readPattern outer start inClass escaped c)
      (s'.readPattern outer' start' inClass escaped c) := by
  unfold Script.readPattern
  refine .ite (fun _ => kept_goOnScript h (.pattern ..) waiting) fun _ => ?_
  refine .ite (fun _ => kept_goOnScript h (.pattern ..) waiting) fun _ => ?_
  refine .ite (fun _ => kept_goOnScript h (.pattern ..) waiting) fun _ => ?_
  refine .ite (fun _ => kept_goOnScript h (.pattern ..) waiting) fun _ => ?_
  refine .ite (fun _ => kept_goOnScript (h.afterValue .nil) .flags waiting) fun _ => ?_
  exact .ite (fun _ => .failAt) fun _ => kept_goOnScript h (.pattern ..) waiting

theorem kept_readScript {s s' : Script} {part part' : Script.Part} (hhere : here.Kept d here')
    (h : s.Kept d s') (hpart : part.Kept d part')
    (waiting : List.Forall₂ (Context.Kept d) outer outer') :
    ScannedKept d (s.read outer here c part) (s'.read outer' here' c part') := by
  cases hpart with
  | between => exact kept_readScriptBetween hhere h waiting
  | word hstart =>
    simp only [Script.read]
    refine .ite (fun _ => kept_goOnScript h (.word hstart) waiting) fun _ => ?_
    rw [hhere.since_eq hstart]
    exact kept_readScriptBetween hhere (h.afterWord _) waiting
  | string quote escaped => exact kept_readString h waiting
  | slash =>
    simp only [Script.read]
    -- What came before decides how a slash is read, and that is the same in both texts.
    rw [h.previous]
    refine .ite (fun _ => kept_goOnScript h .lineComment waiting) fun _ => ?_
    refine .ite (fun _ => kept_goOnScript h (.blockComment false) waiting) fun _ => ?_
    refine .ite (fun _ => kept_readPattern h waiting) fun _ => ?_
    exact kept_readScriptBetween hhere (h.withPrevious _) waiting
  | lineComment =>
    simp only [Script.read]
    refine kept_goOnScript h ?_ waiting
    split
    · exact .between
    · exact .lineComment
  | blockComment starred =>
    simp only [Script.read]
    exact .ite (fun _ => kept_goOnScript h .between waiting)
      fun _ => kept_goOnScript h (.blockComment _) waiting
  | pattern inClass escaped => exact kept_readPattern h waiting
  | flags =>
    simp only [Script.read]
    exact .ite (fun _ => kept_goOnScript h .flags waiting)
      fun _ => kept_readScriptBetween hhere h waiting
  | angle hstart =>
    simp only [Script.read]
    refine .ite (fun _ => kept_readTagName hhere hstart (.cons (.script h) waiting)) fun _ => ?_
    exact kept_readScriptBetween hhere (h.withPrevious _) waiting

/-! ### Reading on -/

/-- Scripts that are kept can end in the same parts. -/
theorem Script.Kept.canEnd_eq {s s' : Script} {part part' : Script.Part} (h : s.Kept d s')
    (hpart : part.Kept d part') : s'.canEnd part' = s.canEnd part := by
  cases hpart <;> simp [Script.canEnd, h.previous]

/-- A character keeps situations kept. -/
theorem Situation.Kept.read {s s' : Situation} (h : s.Kept d s') (hhere : here.Kept d here')
    (c : Char) : ScannedKept d (s.read here c) (s'.read here' c) := by
  cases h with
  | script hs hpart waiting => exact kept_readScript hhere hs hpart waiting
  | template ht part waiting => exact kept_readTemplate part ht waiting
  | tag ht hpart waiting => exact kept_readTag hhere ht hpart waiting
  | content he hpart waiting => exact kept_readContent hhere he hpart waiting

/-- A text keeps situations kept. -/
theorem Situation.Kept.reads {s s' t : Situation} {cs : List Char} (h : s.Kept d s')
    (hhere : here.Kept d here') (ht : s.Reads here cs t) :
    ∃ t', s'.Reads here' cs t' ∧ t.Kept d t' := by
  induction cs generalizing s s' here here' with
  | nil =>
    cases ht
    exact ⟨s', .nil _ _, h⟩
  | cons c cs ih =>
    obtain ⟨m, hm, hrest⟩ := ht.of_cons
    obtain ⟨m', hm', hkept⟩ := h.read hhere c m hm
    obtain ⟨t', ht', hlast⟩ := ih hkept (hhere.advance c) hrest
    exact ⟨t', .cons hm' ht', hlast⟩

/-- At the end of the text, the elements are kept. -/
theorem Situation.Kept.finish {s s' : Situation} {es : List Element} (h : s.Kept d s')
    (hfinish : Scan.finish ⟨here, s⟩ = .ok es) :
    ∃ es', Scan.finish ⟨here', s'⟩ = .ok es' ∧ Jsx.Kept d es es' := by
  obtain ⟨script, part, rfl, hend, hdue, rfl⟩ := Scan.finish_eq_ok_iff.1 hfinish
  cases h with
  | script hs hpart waiting =>
    cases waiting
    have hend' := (hs.canEnd_eq hpart).trans hend
    exact ⟨_, Scan.finish_eq_ok_iff.2 ⟨_, _, rfl, hend', hs.due.trans hdue, rfl⟩, hs.found⟩

end Steps

end Mockup.Jsx
