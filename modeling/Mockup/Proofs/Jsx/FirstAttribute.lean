import Mockup.Proofs.Jsx.Moved
import Mockup.Proofs.Jsx.Opening
import Mockup.Proofs.Jsx.Written

/-!
# A written attribute in front of others

An attribute is written right after the name of the first tag of a text. Its value is the literal of
a text, in plain quotes or as a string in braces. Whatever follows is read as it is read without the
attribute, and everything that follows is moved by the length of the attribute.

## Main results

* `Kept.eq_map_moved`: elements after an edit are kept as elements further on.
* `ElementKept.eq_withFirst`: an element with a further attribute in front of its others.
* `scan_firstAttribute`: the attribute is recorded with a value that stands for the text.
-/

namespace Mockup.Jsx

open Text (byteLength)

variable {d : Splice} {source : List Char} {n : Nat}

/-! ### What stands after an edit -/

theorem Splice.After.eq_add {place place' : Nat} (h : d.After place place')
    (hnew : d.newStop = d.stop + n) : place' = place + n := by
  obtain ⟨-, heq⟩ := h
  omega

theorem Splice.Moved.eq_add {place place' : Nat} (h : d.Moved place place')
    (hnew : d.newStop = d.stop + n) (hlt : d.start < place) : place' = place + n := by
  rcases h with ⟨hle, -⟩ | hafter
  · omega
  · exact hafter.eq_add hnew

/-- Attributes after an edit are kept as attributes further on. -/
theorem map_moved_of_kept {place : Nat} {as as' : List Attribute}
    (h : List.Forall₂ (AttributeKept d place) as as') (hnew : d.newStop = d.stop + n)
    (hplaces : ∀ a ∈ as, d.start < a.start ∧ a.start < a.stop) :
    as' = as.map (Attribute.moved n) := by
  induction h with
  | nil => rfl
  | @cons a a' as as' kept _ ih =>
    obtain ⟨⟨hstart, hstop⟩, hothers⟩ := List.forall_mem_cons.1 hplaces
    have hvalue : a'.value = a.value :=
      kept.value (fun henclosed => absurd henclosed.1 (by omega))
        fun hover => absurd hover.2.2 (by omega)
    have ha : a' = a.moved n := by
      obtain ⟨name', start', stop', value'⟩ := a'
      rw [Attribute.moved, ← kept.name, ← hvalue, ← kept.start.eq_add hnew hstart,
        ← kept.stop.eq_add hnew (hstart.trans hstop)]
    rw [ha, ih hothers, List.map_cons]

/-- Attributes that stand after an edit stood after it before. -/
theorem forall_lt_start_of_kept {place : Nat} {as as' : List Attribute}
    (h : List.Forall₂ (AttributeKept d place) as as') (hlt : d.start < d.stop)
    (hplaces : ∀ a ∈ as', d.start < a.start) : ∀ a ∈ as, d.start < a.start := by
  induction h with
  | nil => exact List.forall_mem_nil _
  | cons kept _ ih =>
    rw [List.forall_mem_cons] at hplaces ⊢
    refine ⟨?_, ih hplaces.2⟩
    rcases kept.start with ⟨-, heq⟩ | ⟨hle, -⟩
    · exact heq ▸ hplaces.1
    · omega

/-- Elements after an edit are kept as elements further on. -/
theorem Kept.eq_map_moved {es es' : List Element} (h : Kept d es es')
    (hnew : d.newStop = d.stop + n) (hdrops : ∀ e, d.drops e = false) (hnone : d.inserted = [])
    (hplaces : ∀ e ∈ Element.walkAll es, d.start < e.start ∧ e.Placed source) :
    es' = es.map (Element.moved n) := by
  induction h with
  | nil => rfl
  | drop dropped => exact absurd dropped (by simp [hdrops])
  | @keep e e' es es' _ element _ _ ihi ihr =>
    simp only [Element.walkAll_cons, List.mem_cons, List.mem_append] at hplaces
    obtain ⟨hstart, placed⟩ := hplaces e (.inl rfl)
    have howner := d.owner_lt
    have hname := placed.start_lt
    have hopen := placed.nameEnd_le
    obtain ⟨front, back, hattributes, hkept⟩ := element.attributes
    rw [Splice.addedTo_of_ne (by omega), List.append_nil] at hattributes
    have hattributes : e'.attributes = e.attributes.map (Attribute.moved n) := by
      rw [hattributes]
      refine map_moved_of_kept hkept hnew fun a ha => ?_
      obtain ⟨hlo, hlt, -⟩ := placed.attribute_bounds a ha
      exact ⟨by omega, hlt⟩
    -- No element lies before the edit and none around it, so all lie after it.
    have hplaces' : e'.start = e.start + n ∧ e'.stop = e.stop + n := by
      cases element.sited with
      | before hstop => have := placed.openEnd_le; omega
      | around hstart => omega
      | after hstart hstop => exact ⟨hstart.eq_add hnew, hstop.eq_add hnew⟩
    have hinside := ihi fun f hf => hplaces f (.inr (.inl hf))
    have hrest := ihr fun f hf => hplaces f (.inr (.inr hf))
    have he : e' = e.moved n := by
      obtain ⟨tag', start', nameEnd', openEnd', stop', attributes', selfClosing', children'⟩ := e'
      rw [Element.moved_eq, ← element.tag, ← element.selfClosing, ← hattributes, ← hinside,
        ← hplaces'.1, ← hplaces'.2, ← element.nameEnd.eq_add hnew (by omega),
        ← element.openEnd.eq_add hnew (by omega)]
    rw [he, hrest, d.insertedAfter_of_nil hnone, List.nil_append, List.map_cons]

/-! ### An attribute in front -/

/-- The element with a further attribute in front of the others. What follows the name of the tag is
`n` bytes further on. -/
def Element.withFirst (a : Attribute) (n : Nat) (e : Element) : Element :=
  { e.moved n with
    start := e.start
    nameEnd := e.nameEnd
    attributes := a :: e.attributes.map (Attribute.moved n) }

/-- An attribute that follows the others does not stand in front of them. -/
theorem eq_nil_of_append_cons {a : Attribute} {front back more : List Attribute}
    (h : front ++ a :: back = a :: more)
    (order : (a :: more).Pairwise fun b c => b.stop ≤ c.start) (hlt : a.start < a.stop) :
    front = [] := by
  cases front with
  | nil => rfl
  | cons b front =>
    obtain ⟨rfl, rfl⟩ := List.cons.inj h
    have := (List.pairwise_cons.1 order).1 b (by simp)
    omega

/-- Where an attribute is put after the place where the texts begin to differ, and the element
records it first, the attributes that it had stand further on. -/
theorem ElementKept.attributes_eq {e e' : Element} {a : Attribute} {more : List Attribute}
    (h : ElementKept d e e') (howner : e.start = d.owner) (hadded : d.added = some a)
    (hlt : d.start < d.stop) (hnew : d.newStop = d.stop + n) (hstart : d.start < a.start)
    (hmore : e'.attributes = a :: more) (placed : e.Placed source) {next : List Char}
    (placed' : e'.Placed next) : e'.attributes = a :: e.attributes.map (Attribute.moved n) := by
  obtain ⟨front, back, hattributes, hkept⟩ := h.attributes
  have hone : d.addedTo e.start = [a] := by simp [Splice.addedTo, howner, hadded]
  rw [hone, List.append_assoc, List.singleton_append] at hattributes
  have order := placed'.attributes_inOrder
  have ha : a.start < a.stop := (placed'.attribute_bounds a (by simp [hmore])).2.1
  rw [hmore] at order
  obtain rfl := eq_nil_of_append_cons (hattributes.symm.trans hmore) order ha
  rw [List.nil_append] at hkept hattributes
  obtain ⟨-, rfl⟩ := List.cons.inj (hattributes.symm.trans hmore)
  -- The others follow the first one, so they stand after the edit.
  have hafter : ∀ b ∈ back, d.start < b.start := fun b hb => by
    have := (List.pairwise_cons.1 order).1 b hb
    omega
  rw [hattributes]
  refine congrArg (a :: ·) (map_moved_of_kept hkept hnew fun b hb => ?_)
  exact ⟨forall_lt_start_of_kept hkept hlt hafter b hb, (placed.attribute_bounds b hb).2.1⟩

/-- Where an attribute is put after the place where the texts begin to differ, and the edited
element records it first, the element has it in front of its attributes, and the rest of it is
moved. -/
theorem ElementKept.eq_withFirst {e e' : Element} {a : Attribute} {more : List Attribute}
    (h : ElementKept d e e') (howner : e.start = d.owner) (hadded : d.added = some a)
    (hlt : d.start < d.stop) (hnew : d.newStop = d.stop + n) (hstart : d.start < a.start)
    (hmore : e'.attributes = a :: more) (sound : e.Sound source) {next : List Char}
    (sound' : e'.Sound next) (hopen : d.start < e.openEnd)
    (hchildren : e'.children = e.children.map (Element.moved n)) : e' = e.withFirst a n := by
  have hattributes := h.attributes_eq howner hadded hlt hnew hstart hmore sound.placed
    sound'.placed
  have hd := d.owner_lt
  have hle := sound.openEnd_le
  have hstart : e'.start = e.start ∧ e'.stop = e.stop + n := by
    cases h.sited with
    | before hstop => omega
    | around _ hstart _ hstop => exact ⟨hstart, hstop.eq_add hnew⟩
    | after hstart => have := hstart.1; have := d.start_le; omega
  -- The name of an element follows its start.
  have hnameEnd : e'.nameEnd = e.nameEnd := by
    rw [sound.nameEnd_eq, sound'.nameEnd_eq, h.tag, hstart.1]
  have hopenEnd := h.openEnd.eq_add hnew hopen
  have htag := h.tag
  have hclosing := h.selfClosing
  obtain ⟨tag', start', nameEnd', openEnd', stop', attributes', selfClosing', children'⟩ := e'
  subst htag hclosing hattributes hopenEnd hnameEnd hchildren
  obtain ⟨rfl, rfl⟩ := hstart
  rw [Element.withFirst, Element.moved_eq]

/-! ### The first tag of a text -/

section FirstTag

variable {tag name text rest : List Char} {value : Value} {es : List Element}

/-- The opening tag with this name at the start of a text. -/
def firstTag (tag : List Char) : OpenTag :=
  { start := 0, name := String.ofList tag, nameEnd := byteLength ('<' :: tag) }

/-- The name of the first tag of a text. -/
theorem reached_tagName (htag : isTagName tag = true) :
    Reached ('<' :: tag) ⟨.tag { start := 0 } .name, [.script {}]⟩ := by
  have hopen : Situation.angle? ⟨.script {} (.angle 0), []⟩ = some (0, [.script {}]) := rfl
  exact reads_tagName (m := ⟨.script {} (.angle 0), []⟩) rfl
    (fun there c hc => Situation.read_of_angle? hopen hc there) htag

theorem since_firstTag (tag : List Char) :
    (Cursor.start.after ('<' :: tag)).since (0 + 1) = tag :=
  Cursor.since_after_mark .start (by decide) tag

theorem named_firstTag (tag : List Char) :
    OpenTag.named { start := 0 } (Cursor.start.after ('<' :: tag)) = firstTag tag := by
  rw [OpenTag.named, since_firstTag, Cursor.offset_after_start, firstTag]

/-- The name of the first tag is read, and something else may follow. -/
theorem settles_firstTag : Situation.Settles ⟨.tag { start := 0 } .name, [.script {}]⟩
    (Cursor.start.after ('<' :: tag)) (firstTag tag) [.script {}] := by
  have settles : Situation.Settles ⟨.tag { start := 0 } .name, [.script {}]⟩ _ _ _ :=
    settles_name (since_firstTag tag)
  rwa [Cursor.offset_after_start] at settles

theorem reached_firstTag (htag : isTagName tag = true) :
    Reached ('<' :: tag ++ [' ']) ⟨.tag (firstTag tag) .between, [.script {}]⟩ := by
  refine (reached_tagName htag).append (.single ?_)
  rw [← named_firstTag]
  rfl

/-- An attribute with a value follows the name of the first tag. -/
theorem reached_firstAttribute (htag : isTagName tag = true) (hne : name ≠ [])
    (hname : ∀ c ∈ name, isAttributeChar c = true) (hvalue : Writes text value) :
    Reached ('<' :: tag ++ ' ' :: (name ++ '=' :: text))
      ⟨.tag ((firstTag tag).addAttribute ⟨String.ofList name, byteLength ('<' :: tag) + 1⟩
        (byteLength ('<' :: tag ++ ' ' :: (name ++ '=' :: text))) (some value)) .between,
        [.script {}]⟩ := by
  have hreads := (reached_tagName htag).append (settles_firstTag.reads_attribute hne hname hvalue)
  rwa [← Cursor.after_append, Cursor.offset_after_start, Cursor.offset_after_start] at hreads

theorem byteLength_firstAttribute (tag name text : List Char) :
    byteLength ('<' :: tag ++ ' ' :: (name ++ '=' :: text)) =
      byteLength ('<' :: tag) + 1 + byteLength (name ++ '=' :: text) := by
  have hspace : byteLength (' ' :: (name ++ '=' :: text)) =
      1 + byteLength (name ++ '=' :: text) := rfl
  rw [Text.byteLength_append, hspace, Nat.add_assoc]

/-- A tag at the start of a text that closes itself is the one element of the text. -/
theorem scan_of_reached {before : List Char} {t : OpenTag}
    (reached : Reached before ⟨.tag t .between, [.script {}]⟩) :
    scan (before ++ ['/', '>']) =
      .ok [t.element (byteLength before + 2) (byteLength before + 2) true] := by
  have hoffset : ((Cursor.start.after before).advance '/').offset + 1 = byteLength before + 2 := by
    rw [Cursor.offset_advance_eq (by decide), Cursor.offset_after_start]
  have hclose : Situation.read ⟨.tag t (.slash (Cursor.start.after before).offset), [.script {}]⟩
      ((Cursor.start.after before).advance '/') '>' =
        leave [t.element (byteLength before + 2) (byteLength before + 2) true] [.script {}] := by
    rw [← hoffset]
    rfl
  refine scan_eq_of_reads (reached.append (.cons rfl (.single hclose))) rfl

/-- What is read after the first attribute of a text is read alike without it, and moved. -/
theorem exists_kept_of_firstAttribute (htag : isTagName tag = true) (hne : name ≠ [])
    (hname : ∀ c ∈ name, isAttributeChar c = true) (hvalue : Writes text value)
    (h : scan ('<' :: tag ++ ' ' :: rest) = .ok es) :
    ∃ (d : Splice) (es' : List Element), (d.start = byteLength ('<' :: tag) ∧
      d.stop = d.start + 1 ∧ d.newStop = d.stop + byteLength (name ++ '=' :: text) ∧ d.owner = 0 ∧
      d.added = some ⟨String.ofList name, d.stop, d.newStop, some value⟩ ∧
      (d.drops = fun _ => false) ∧ d.inserted = []) ∧
      scan ('<' :: tag ++ ' ' :: (name ++ '=' :: text) ++ rest) = .ok es' ∧ Kept d es es' := by
  have hopening : byteLength ('<' :: tag) = 1 + byteLength tag := rfl
  have hlen : byteLength ('<' :: tag ++ [' ']) = byteLength ('<' :: tag) + 1 :=
    Text.byteLength_append _ _
  -- The edit replaces the blank after the name by this blank and the attribute.
  let a : Attribute := ⟨String.ofList name, byteLength ('<' :: tag) + 1,
    byteLength ('<' :: tag ++ ' ' :: (name ++ '=' :: text)), some value⟩
  let d : Splice :=
    { start := byteLength ('<' :: tag)
      stop := byteLength ('<' :: tag) + 1
      newStop := a.stop
      owner := 0
      value := none
      added := some a
      drops := fun _ => false
      owner_lt := by omega
      start_le := Nat.le_succ _
      drops_within := by simp }
  have hnone : Text.InOrder Attribute.start Attribute.stop 0 [] 0 := Nat.le_refl 0
  have hattributes : AttributesKept d 0 [] [a] := .add hnone (Nat.zero_le _) rfl
  have ht : (firstTag tag).Kept d ((firstTag tag).addAttribute ⟨a.name, a.start⟩ a.stop
      (some value)) :=
    { name := rfl
      start := .inl ⟨Nat.le_refl 0, rfl⟩
      nameEnd := .before (Nat.le_refl _)
      attributes := hattributes
      found := .nil }
  have waiting : List.Forall₂ (Context.Kept d) [.script {}] [.script {}] :=
    .cons (.script ⟨rfl, rfl, .nil⟩) .nil
  rw [List.append_cons] at h
  obtain ⟨es', hscan, hkept⟩ := Kept.of_partEnd (.of_between (reached_firstTag htag) rest)
    (reached_firstAttribute htag hne hname hvalue) hlen rfl ht waiting h
  exact ⟨d, es', ⟨rfl, rfl, byteLength_firstAttribute tag name text, rfl, rfl, rfl, rfl⟩, hscan,
    hkept⟩

/-- The opening of the first tag has one angle bracket. -/
theorem notMem_tagName_blank (htag : isTagName tag = true) {c : Char} (hc : isTagChar c = false)
    (hblank : c ≠ ' ') : c ∉ tag ++ [' '] := by
  intro hmem
  rcases List.mem_append.1 hmem with hmem | hmem
  · exact isTagChar_ne (isTagChar_of_mem htag c hmem) hc rfl
  · exact hblank (List.mem_singleton.1 hmem)

/-- An element that does not begin with the text begins after the opening of the first tag. -/
theorem Element.Sound.lt_start {e : Element} (h : e.Sound ('<' :: tag ++ [' '] ++ rest))
    (htag : isTagName tag = true) (hpos : 0 < e.start) : byteLength ('<' :: tag) < e.start := by
  obtain ⟨place, hplace, hat⟩ := h.opening.of_cons hpos
  have hle : byteLength (tag ++ [' ']) ≤ place :=
    hat.le_of_notMem (notMem_tagName_blank htag (by decide) (by decide))
  have hlen : byteLength (tag ++ [' ']) = byteLength tag + 1 := Text.byteLength_append _ _
  rw [hplace, Text.byteLength_cons]
  omega

/-- The opening tag of an element ends after the opening of the first tag. -/
theorem Element.Sound.lt_openEnd {e : Element} (h : e.Sound ('<' :: tag ++ [' '] ++ rest))
    (htag : isTagName tag = true) : byteLength ('<' :: tag) < e.openEnd := by
  have hclose : '>' ∉ '<' :: (tag ++ [' ']) :=
    List.not_mem_cons_of_ne_of_not_mem (by decide)
      (notMem_tagName_blank htag (by decide) (by decide))
  have hle : byteLength ('<' :: tag ++ [' ']) ≤ e.openEnd - 1 :=
    h.openEnd.le_of_notMem hclose
  have hlen : byteLength ('<' :: tag ++ [' ']) = byteLength ('<' :: tag) + 1 :=
    Text.byteLength_append ('<' :: tag) _
  omega

/-- A text with an attribute in its first tag has the elements of the text without it, the first one
with this attribute in front, and all others further on. -/
theorem exists_scan_of_firstAttribute (htag : isTagName tag = true) (hne : name ≠ [])
    (hname : ∀ c ∈ name, isAttributeChar c = true) (hvalue : Writes text value)
    (h : scan ('<' :: tag ++ ' ' :: rest) = .ok es) :
    ∃ e more, es = e :: more ∧ e.start = 0 ∧
      scan ('<' :: tag ++ ' ' :: (name ++ '=' :: text) ++ rest) = .ok
        (e.withFirst ⟨String.ofList name, byteLength ('<' :: tag) + 1,
            byteLength ('<' :: tag) + 1 + byteLength (name ++ '=' :: text), some value⟩
          (byteLength (name ++ '=' :: text)) ::
        more.map (Element.moved (byteLength (name ++ '=' :: text)))) := by
  obtain ⟨d, es', ⟨hstart, hstop, hnew, howner, hadded, hdrops, hinserted⟩, hscan, hkept⟩ :=
    exists_kept_of_firstAttribute htag hne hname hvalue h
  rw [List.append_cons] at h
  -- The first tag of either text is that of its first element.
  obtain ⟨e, -, hfirst, hzero, -⟩ := exists_of_reached (reached_firstTag htag) h
  obtain ⟨e', others, hfirst', -, hattributes⟩ :=
    exists_of_reached (reached_firstAttribute htag hne hname hvalue) hscan
  have hattributes : e'.attributes =
      ⟨String.ofList name, d.stop, d.newStop, some value⟩ :: others := by
    rw [hattributes, byteLength_firstAttribute, hnew, hstop, hstart]
    rfl
  have forest := forest_of_scan h
  have sound' := (forest_of_scan hscan).2 e' (List.mem_of_getElem? hfirst')
  have hdrops : ∀ f, d.drops f = false := fun f => by rw [hdrops]
  cases hkept with
  | nil => cases hfirst
  | drop hdrop => exact absurd hdrop (by simp [hdrops])
  | @keep f f' es es' _ element inside rest =>
    obtain rfl : f = e := by simpa [recordsOfOuter, Context.records] using hfirst
    obtain rfl : f' = e' := by simpa [recordsOfOuter, Context.records] using hfirst'
    -- Only the first element begins where the text begins; the others stand after the edit.
    have hplaces : ∀ g ∈ Element.walkAll (f :: es), 0 < g.start →
        d.start < g.start ∧ g.Placed _ := fun g hg hpos =>
      ⟨hstart ▸ (forest.2 g hg).lt_start htag hpos, (forest.2 g hg).placed⟩
    have hchildren := inside.eq_map_moved hnew hdrops hinserted fun g hg =>
      hplaces g (by simp [hg]) (Nat.lt_of_lt_of_le (Nat.succ_pos _) (forest.children.bounds hg).1)
    have hrest := rest.eq_map_moved hnew hdrops hinserted fun g hg =>
      hplaces g (by simp [hg])
        (Nat.lt_of_lt_of_le (Nat.zero_lt_of_lt forest.1.2.1) (forest.tail.bounds hg).1)
    have sound := forest.2 f (by simp)
    have hf := element.eq_withFirst (hzero.trans howner.symm) hadded (by omega) hnew
      (show d.start < d.stop by omega) hattributes sound sound'
      (hstart ▸ sound.lt_openEnd htag) hchildren
    rw [hnew, hstop, hstart] at hf
    rw [d.insertedAfter_of_nil hinserted, List.nil_append, hf, hrest] at hscan
    exact ⟨f, es, rfl, hzero, hscan⟩

end FirstTag

/-- A text that is written as the value of an attribute right after the name of a tag is read as the
value of this attribute, which ends where the written text ends: in a tag that closes itself, and
before anything that may follow the name of the tag after a blank, be it another attribute or the
end of the tag. Everything else is read as without the attribute, and moved by its length. -/
theorem scan_firstAttribute {tag name : String} (htag : isTagName tag.toList = true)
    (hne : name.toList ≠ []) (hname : ∀ c ∈ name.toList, isAttributeChar c = true) (s : String) :
    ∃ value, value.text? = some s.toList ∧
      let written := name.toList ++ '=' :: literal s.toList
      let start := byteLength tag.toList + 2
      let stop := start + byteLength written
      let a : Attribute := ⟨name, start, stop, some value⟩
      scan ('<' :: tag.toList ++ ' ' :: written ++ ['/', '>']) =
        .ok [⟨tag, 0, byteLength tag.toList + 1, stop + 2, stop + 2, [a], true, []⟩] ∧
      ∀ rest es, scan ('<' :: tag.toList ++ ' ' :: rest) = .ok es → ∃ e more, es = e :: more ∧
        e.start = 0 ∧ scan ('<' :: tag.toList ++ ' ' :: written ++ rest) =
          .ok (e.withFirst a (byteLength written) ::
            more.map (Element.moved (byteLength written))) := by
  have hopening : byteLength ('<' :: tag.toList) = byteLength tag.toList + 1 := Nat.add_comm _ _
  have hvalue := writes_literal s.toList
  refine ⟨literalValue s.toList, text?_literalValue _, ?_, fun rest es h => ?_⟩
  · -- A tag that closes itself is read to the end of the text.
    have hscan := scan_of_reached (reached_firstAttribute htag hne hname hvalue)
    rw [byteLength_firstAttribute, hopening, String.ofList_toList] at hscan
    rw [hscan, OpenTag.element, firstTag, hopening, String.ofList_toList]
    rfl
  · have hexists := exists_scan_of_firstAttribute htag hne hname hvalue h
    rwa [hopening, String.ofList_toList] at hexists

/-- A text with quotes, a backslash, a brace and characters beyond ASCII. -/
def hostileText : String := "\"é\\\x7b'&\n𝔸"

/-- An attribute with an element in its value follows without a blank. -/
theorem scan_firstAttribute_hostile :
    isTagName "t".toList = true ∧ "data-x:1".toList ≠ [] ∧
      (∀ c ∈ "data-x:1".toList, isAttributeChar c = true) ∧
      ∃ value, value.text? = some hostileText.toList ∧
        let written := "data-x:1".toList ++ '=' :: literal hostileText.toList
        ∃ e more, scan "<t b=\x7b<u/>\x7d>x</t><v/>".toList = .ok (e :: more) ∧
          scan ("<t ".toList ++ written ++ "b=\x7b<u/>\x7d>x</t><v/>".toList) =
            .ok (e.withFirst ⟨"data-x:1", 3, 3 + byteLength written, some value⟩
              (byteLength written) :: more.map (Element.moved (byteLength written))) := by
  have htag : isTagName "t".toList = true := rfl
  have hne : "data-x:1".toList ≠ [] := by decide
  have hname : ∀ c ∈ "data-x:1".toList, isAttributeChar c = true := List.all_eq_true.1 rfl
  obtain ⟨value, htext, -, hrest⟩ := scan_firstAttribute htag hne hname hostileText
  obtain ⟨e, more, heq, -, hscan⟩ := hrest "b=\x7b<u/>\x7d>x</t><v/>".toList _ rfl
  exact ⟨htag, hne, hname, value, htext, e, more, heq ▸ rfl, hscan⟩

end Mockup.Jsx
