import Mockup.Proofs.Jsx.Alone
import Mockup.Proofs.Jsx.AttributeEdit
import Mockup.Proofs.Jsx.Written

/-!
# Putting an element beside another one

The text of one element is put on a line of its own after an element that was found in a content. It
is read there as that element, which is found in the same content, and all that follows is read as
before. Where no element stands in an opening tag, no attribute is touched.

## Main results

* `ends_of_scan`: the text of one element ends that element wherever it is read.
* `exists_kept_beside`: what is kept of a text when an element is put beside another one.
* `map_pair_eq`: the attributes keep their names and values.
-/

namespace Mockup.Jsx

variable {source front back cs : List Char} {es : List Element} {e r : Element}

/-! ### The text of an element -/

/-- A text that is scanned as one element from its start to its end ends that element wherever it
is read. -/
theorem ends_of_scan (h : scan cs = .ok [r]) (hstart : r.start = 0)
    (hstop : r.stop = Text.byteLength cs) : ∃ c inner, cs = '<' :: c :: inner ∧
      opensElement c = true ∧ Situation.opening.Ends (Cursor.start.advance '<') (c :: inner) r := by
  have hmem : r ∈ Element.walkAll [r] := Element.mem_walkAll_of_mem List.mem_cons_self
  have opens := opensAt_of_scan h hmem
  rw [hstart] at opens
  obtain ⟨before, c, inner, after, e, rfl, hbefore, hc, ends, hestart, hestop, he⟩ :=
    exists_ends_of_opensAt h opens
  obtain rfl := Text.eq_nil_of_byteLength_eq_zero hbefore
  rw [Element.moved_zero] at he
  obtain rfl := (forest_of_scan h).eq_of_start_eq he hmem (hestart.trans hstart.symm)
  have hafter : Text.byteLength after = 0 := by
    rw [hestop, Text.byteLength_append, List.nil_append] at hstop
    omega
  obtain rfl := Text.eq_nil_of_byteLength_eq_zero hafter
  exact ⟨c, inner, by simp, hc, ends⟩

/-- In a content, the text of an element on a line of its own is read as that element. -/
theorem reads_beside (h : scan cs = .ok [r]) (hstart : r.start = 0)
    (hstop : r.stop = Text.byteLength cs) (q : OpenElement) (outer : List Context) (here : Cursor) :
    Situation.Reads ⟨.content q .between, outer⟩ here ('\n' :: cs)
      ⟨.content (q.add [r.moved (here.offset + 1)]) .between, outer⟩ := by
  obtain ⟨c, inner, rfl, hc, ends⟩ := ends_of_scan h hstart hstop
  have hline : (here.advance '\n').offset = here.offset + 1 := rfl
  have ahead :
      ((here.advance '\n').advance '<').Ahead (here.offset + 1) (Cursor.start.advance '<') :=
    ⟨(here.advance '\n').passed, by simp, by rw [← Cursor.offset_eq_byteLength, hline]⟩
  have hreads := ends _ (.content q :: outer) _ _ ahead rfl
  rw [Situation.above_opening] at hreads
  have hangle : Situation.angle? ⟨.content q (.angle (here.offset + 1)), outer⟩ =
      some (here.offset + 1, .content q :: outer) := rfl
  have hopened := hreads.of_read_eq (Situation.read_of_angle? hangle hc _)
  exact .cons rfl (.cons rfl hopened)

/-! ### The edit -/

/-- Two situations that an edit keeps read the rest of a text alike. -/
theorem Situation.Kept.scan {d : Splice} {s s' : Situation} {before before' rest : List Char}
    (h : s.Kept d s') (reached : Reached before s) (reached' : Reached before' s')
    (hlen : Text.byteLength before = d.stop) (hlen' : Text.byteLength before' = d.newStop)
    (hscan : Jsx.scan (before ++ rest) = .ok es) :
    ∃ es', Jsx.scan (before' ++ rest) = .ok es' ∧ Jsx.Kept d es es' := by
  have hhere := Cursor.Kept.of_lengths hlen hlen'
  exact exists_kept_of_rest reached reached' (fun _ hread => h.reads hhere hread) hscan

/-- A sound element before an edit, which is not the edited one, is kept with those after it. -/
theorem Kept.cons_before {d : Splice} {lo hi : Nat} {fs fs' : List Element}
    (forest : Forest source lo (e :: fs) hi) (hstop : e.stop ≤ d.start) (howner : d.owner < lo)
    (rest : Kept d fs fs') : Kept d (e :: fs) (e :: (d.insertedAfter e.stop ++ fs')) := by
  obtain ⟨hstart, hlt, -⟩ := forest.1
  have sound : e.Sound source := forest.2 e (by simp)
  refine .keep (d.drops_eq_false (.inl (by omega))) (sound.kept hstop (by omega)) ?_ rest
  exact .refl forest.children (by omega) (.inl (by omega)) (.inl (by omega))

/-- Elements of which the last one ends where an edit begins are kept, and what is inserted follows
them. -/
theorem Kept.concat_inserted {d : Splice} {lo hi : Nat} {fs : List Element}
    (forest : Forest source lo (fs ++ [e]) hi) (hstart : d.start = e.stop) (howner : d.owner < lo) :
    Kept d (fs ++ [e]) ((fs ++ [e]) ++ d.inserted) := by
  induction fs generalizing lo with
  | nil =>
    have hlast := Kept.cons_before forest (Nat.le_of_eq hstart.symm) howner .nil
    rwa [Splice.insertedAfter, if_pos hstart.symm, List.append_nil] at hlast
  | cons f fs ih =>
    have htail : Forest source f.stop (fs ++ [e]) hi := forest.tail
    have hmem : e ∈ fs ++ [e] := List.mem_append_right fs List.mem_cons_self
    have hbounds := htail.bounds (Element.mem_walkAll_of_mem hmem)
    have hfirst := forest.1.1
    have hlt := forest.1.2.1
    have hcons := Kept.cons_before forest (d := d) (by omega) howner (ih htail (by omega))
    rwa [Splice.insertedAfter_of_ne (by omega), List.nil_append] at hcons

/-- An element is put after one that was found in a content: the elements of the text are kept. -/
theorem exists_kept_beside {q : OpenElement} {outer : List Context} {fs : List Element}
    (reached : Reached front ⟨.content q .between, outer⟩) (hfound : q.tag.found = fs ++ [e])
    (hend : Text.byteLength front = e.stop) (hr : scan cs = .ok [r]) (hstart : r.start = 0)
    (hstop : r.stop = Text.byteLength cs) (h : scan (front ++ back) = .ok es) :
    ∃ (d : Splice) (es' : List Element), d.start = e.stop ∧ d.stop = e.stop ∧ d.added = none ∧
      (∀ f, d.drops f = false) ∧ d.inserted = [r.moved (e.stop + 1)] ∧
      scan (front ++ '\n' :: cs ++ back) = .ok es' ∧ Kept d es es' := by
  cases reached.sound with
  | @content hi _ _ _ element hi_le angle admits waiting =>
    rw [Cursor.passed_after_start] at element waiting
    rw [Cursor.offset_after_start, hend] at hi_le
    have found := element.tag.found
    rw [hfound] at found
    have hmem : e ∈ Element.walkAll (fs ++ [e]) := Element.mem_walkAll_of_mem (by simp)
    have hbounds := found.bounds hmem
    -- Nothing is replaced at the end of `e`, so no element is dropped and one is added.
    let d : Splice :=
      { start := e.stop
        stop := e.stop
        newStop := Text.byteLength (front ++ '\n' :: cs)
        owner := q.tag.start
        value := none
        added := none
        drops := fun _ => false
        owner_lt := by omega
        start_le := Nat.le_refl _
        drops_within := by simp
        inserted := [r.moved (e.stop + 1)] }
    have hkept : Kept d q.tag.found (q.tag.found ++ [r.moved (e.stop + 1)]) := by
      rw [hfound]
      exact .concat_inserted found rfl (Nat.lt_succ_self _)
    have hattributes := element.tag.attributes.1
    have hlimit := hattributes.le
    have hopen := element.openEnd_le
    have htag : q.tag.Kept d (q.tag.add [r.moved (e.stop + 1)]) :=
      { name := rfl
        start := .inl ⟨Nat.le_refl _, rfl⟩
        nameEnd := .before (show q.tag.nameEnd ≤ e.stop by omega)
        attributes := by
          have hnone : d.addedTo q.tag.start = [] := by simp [Splice.addedTo, d]
          exact .refl hattributes (show q.openEnd - 1 ≤ e.stop by omega) hnone
        found := hkept }
    have hopenEnd : d.Moved q.openEnd q.openEnd := .before (show q.openEnd ≤ e.stop by omega)
    have hcontent : Situation.Kept d ⟨.content q .between, outer⟩
        ⟨.content (q.add [r.moved (e.stop + 1)]) .between, outer⟩ :=
      .content ⟨htag, hopenEnd⟩ .between (waiting.kept (Nat.le_refl _))
    have hreads := reached.append (reads_beside hr hstart hstop q outer _)
    rw [Cursor.offset_after_start, hend] at hreads
    obtain ⟨es', hes', hkept'⟩ := hcontent.scan reached hreads hend rfl h
    exact ⟨d, es', rfl, rfl, rfl, fun _ => rfl, rfl, hes', hkept'⟩

/-! ### Attributes -/

/-- What is inside elements that begin from a place on begins from there on too. -/
theorem Forest.le_start {lo hi place : Nat} (forest : Forest source lo es hi)
    (h : ∀ f ∈ es, place ≤ f.start) (he : e ∈ Element.walkAll es) : place ≤ e.start := by
  cases es with
  | nil => simp at he
  | cons f fs => exact Nat.le_trans (h f List.mem_cons_self) (forest.head_le he)

/-- Where no element stands in an opening tag, the end of an element is in no attribute. -/
theorem Forest.not_in_attribute {lo hi : Nat} {f : Element} {a : Attribute}
    (forest : Forest source lo es hi) (hclear : ∀ g ∈ Element.walkAll es, g.TagClear)
    (he : e ∈ Element.walkAll es) (hf : f ∈ Element.walkAll es) (ha : a ∈ f.attributes) :
    ¬(a.start < e.stop ∧ e.stop < a.stop) := by
  have hattribute : f.start < a.start ∧ a.stop ≤ f.openEnd - 1 ∧ f.openEnd ≤ f.stop := by
    have sound := forest.2 f hf
    have horder := sound.attributes.1.of_mem ha
    have hname := sound.nameEnd_eq
    have hopen := sound.openEnd_le
    omega
  induction es using Element.forest_induction generalizing lo hi with
  | nil => simp at he
  | cons g gs ihc ihs =>
    simp only [Element.walkAll_cons, List.mem_cons, List.mem_append] at hclear he hf
    have hlt := forest.1.2.1
    have sound : g.Sound source := forest.2 g (by simp)
    have hopen := sound.openEnd_le
    rcases he with rfl | he | he
    · -- The element is the first one, and all other elements lie inside it or after it.
      rcases hf with rfl | hf | hf
      · omega
      · have hbounds := forest.children.bounds hf
        omega
      · have hbounds := forest.tail.bounds hf
        omega
    · have hbounds := forest.children.bounds he
      rcases hf with rfl | hf | hf
      · -- Inside the element that bears the attribute, elements begin after the opening tag.
        have hle := forest.children.le_start (hclear f (.inl rfl)) he
        omega
      · exact ihc forest.children (fun c hc => hclear c (.inr (.inl hc))) he hf
      · have hbounds' := forest.tail.bounds hf
        omega
    · have hbounds := forest.tail.bounds he
      rcases hf with rfl | hf | hf
      · omega
      · have hbounds' := forest.children.bounds hf
        omega
      · exact ihs forest.tail (fun c hc => hclear c (.inr (.inr hc))) he hf

/-- Where nothing is overwritten or added and no attribute is around the edit, attributes keep their
names and values. -/
theorem ElementKept.map_pair_eq {d : Splice} {e' : Element} (h : ElementKept d e e')
    (hadded : d.added = none) (hempty : d.start = d.stop)
    (houtside : ∀ a ∈ e.attributes, ¬d.EnclosedBy a) :
    e'.attributes.map Attribute.pair = e.attributes.map Attribute.pair := by
  obtain ⟨front, back, hattributes, hkept⟩ := h.attributes
  have hnone : d.addedTo e.start = [] := by simp [Splice.addedTo, hadded]
  rw [hnone, List.append_nil] at hattributes
  rw [← hattributes] at hkept
  generalize e'.attributes = bs at hkept
  generalize e.attributes = as at hkept houtside
  induction hkept with
  | nil => rfl
  | @cons a b as bs kept _ ih =>
    obtain ⟨ha, has⟩ := List.forall_mem_cons.1 houtside
    have hover : ¬d.Overwrites e.start a := fun hover => absurd hover.1 (by omega)
    have hpair : b.pair = a.pair := Prod.ext kept.name (kept.value ha hover)
    rw [List.map_cons, List.map_cons, hpair, ih has]

end Mockup.Jsx
