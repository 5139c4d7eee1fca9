import Mockup.Proofs.Jsx.Find
import Mockup.Proofs.Jsx.Kept

/-!
# Entries after an edit

An edit that keeps elements keeps their entries too: without the elements that stood in the replaced
text, the old entries and the new ones have the same tags and the same relations, one by one. An
attribute that is written is found under its name, and the other attributes stay as they were.

## Main results

* `Kept.entries`: entries of elements that are kept.
* `ElementKept.overwritten`, `ElementKept.added`: the attributes of an edited element.
-/

namespace Mockup.Jsx

open Text (InOrder)

namespace Element

/-! ### Elements that are gone -/

mutual

/-- An element without those inside it that satisfy `p`. -/
def without (p : Element → Bool) : Element → Element
  | ⟨tag, start, nameEnd, openEnd, stop, attributes, selfClosing, children⟩ =>
    ⟨tag, start, nameEnd, openEnd, stop, attributes, selfClosing, allWithout p children⟩

/-- Several elements without those that satisfy `p`, and without those inside them that do. -/
def allWithout (p : Element → Bool) : List Element → List Element
  | [] => []
  | e :: es => if p e then allWithout p es else without p e :: allWithout p es

end

variable {p : Element → Bool}

theorem without_eq (e : Element) :
    e.without p = { e with children := allWithout p e.children } := by
  cases e
  rw [without]

@[simp]
theorem allWithout_nil : allWithout p [] = [] := by
  rw [allWithout]

theorem allWithout_cons_of_drop {e : Element} (h : p e = true) (es : List Element) :
    allWithout p (e :: es) = allWithout p es := by
  rw [allWithout, if_pos h]

theorem allWithout_cons_of_keep {e : Element} (h : p e = false) (es : List Element) :
    allWithout p (e :: es) = e.without p :: allWithout p es := by
  rw [allWithout, if_neg (by simp [h])]

/-- Nothing is gone if no element satisfies `p`. -/
theorem allWithout_eq_self {es : List Element} (h : ∀ e ∈ walkAll es, p e = false) :
    allWithout p es = es := by
  induction es using forest_induction with
  | nil => simp
  | cons e es ihc ihs =>
    simp only [walkAll_cons, List.mem_cons, List.mem_append] at h
    have hchildren := ihc fun f hf => h f (.inr (.inl hf))
    have hrest := ihs fun f hf => h f (.inr (.inr hf))
    have hkeep := h e (.inl rfl)
    cases e
    rw [allWithout_cons_of_keep hkeep, without, hchildren, hrest]

/-- An element that stays has only lost elements inside it. -/
theorem exists_of_mem_allWithout {es : List Element} {f : Element}
    (h : f ∈ walkAll (allWithout p es)) : ∃ e ∈ walkAll es, f = e.without p := by
  induction es using forest_induction with
  | nil => simp at h
  | cons e es ihc ihs =>
    simp only [walkAll_cons, List.mem_cons, List.mem_append]
    cases hp : p e with
    | true =>
      rw [allWithout_cons_of_drop hp] at h
      obtain ⟨g, hg, rfl⟩ := ihs h
      exact ⟨g, .inr (.inr hg), rfl⟩
    | false =>
      rw [allWithout_cons_of_keep hp, walkAll_cons, List.mem_cons, List.mem_append,
        without_eq] at h
      rcases h with rfl | h | h
      · exact ⟨e, .inl rfl, (without_eq e).symm⟩
      · obtain ⟨g, hg, rfl⟩ := ihc h
        exact ⟨g, .inr (.inl hg), rfl⟩
      · obtain ⟨g, hg, rfl⟩ := ihs h
        exact ⟨g, .inr (.inr hg), rfl⟩

/-- An element stays if no element that begins with it or before it satisfies `p`. -/
theorem mem_allWithout {source : List Char} {lo hi : Nat} {es : List Element} {e : Element}
    (h : Forest source lo es hi) (he : e ∈ walkAll es)
    (hkeep : ∀ f : Element, f.start ≤ e.start → p f = false) :
    e.without p ∈ walkAll (allWithout p es) := by
  induction es using forest_induction generalizing lo hi with
  | nil => simp at he
  | cons f fs ihc ihs =>
    have hstart : f.start ≤ e.start := h.head_le he
    rw [walkAll_cons, List.mem_cons, List.mem_append] at he
    rw [allWithout_cons_of_keep (hkeep f hstart), walkAll_cons]
    rcases he with rfl | he | he
    · exact List.mem_cons_self
    · rw [without_eq f]
      exact List.mem_cons_of_mem _ (List.mem_append_left _ (ihc h.children he))
    · exact List.mem_cons_of_mem _ (List.mem_append_right _ (ihs h.tail he))

end Element

/-- Two elements of a text that begin at one place are the same. -/
theorem Forest.eq_of_start_eq {source : List Char} {lo hi : Nat} {es : List Element}
    (h : Forest source lo es hi) {e f : Element} (he : e ∈ Element.walkAll es)
    (hf : f ∈ Element.walkAll es) (heq : e.start = f.start) : e = f := by
  have hpairs : (Element.walkAll es).Pairwise fun e f => e.start = f.start → e = f :=
    h.pairwise_start.imp fun hlt heq => absurd heq (Nat.ne_of_lt hlt)
  have hflip : (Element.walkAll es).Pairwise (flip fun e f => e.start = f.start → e = f) :=
    h.pairwise_start.imp fun hlt heq => absurd heq.symm (Nat.ne_of_lt hlt)
  exact hpairs.forall_of_forall_of_flip (fun _ _ _ => rfl) hflip he hf heq

/-! ### Entries -/

section Entries

variable {d : Splice} {es es' : List Element}

/-- An entry has the same relations, and its element is kept. -/
structure EntryKept (d : Splice) (x x' : Element.Entry) : Prop where
  element : ElementKept d x.element x'.element
  parent : x'.parent = x.parent
  children : x'.children = x.children

theorem Kept.length_walkAll (h : Kept d es es') (hnone : d.inserted = []) :
    (Element.walkAll (Element.allWithout d.drops es)).length =
      (Element.walkAll es').length := by
  induction h with
  | nil => simp
  | keep kept _ _ _ ihi ihr =>
    rw [Element.allWithout_cons_of_keep kept, Element.without_eq, d.insertedAfter_of_nil hnone]
    simp [ihi, ihr]
  | drop dropped _ ih =>
    rw [Element.allWithout_cons_of_drop dropped]
    exact ih

theorem Kept.size_eq {e e' : Element} (h : Kept d e.children e'.children)
    (hnone : d.inserted = []) : (e.without d.drops).size = e'.size := by
  rw [Element.size_eq, Element.size_eq, Element.without_eq, h.length_walkAll hnone]

theorem Kept.positions_eq (h : Kept d es es') (hnone : d.inserted = []) (index : Nat) :
    Element.positions index (Element.allWithout d.drops es) =
      Element.positions index es' := by
  induction h generalizing index with
  | nil => simp
  | keep kept _ inside _ _ ih =>
    rw [Element.allWithout_cons_of_keep kept, d.insertedAfter_of_nil hnone, List.nil_append,
      Element.positions, Element.positions, inside.size_eq hnone, ih]
  | drop dropped _ ih =>
    rw [Element.allWithout_cons_of_drop dropped]
    exact ih index

/-- Without the elements of the replaced text, the entries are kept one by one. -/
theorem Kept.entries (h : Kept d es es') (hnone : d.inserted = []) (parent : Option Nat)
    (index : Nat) :
    List.Forall₂ (EntryKept d)
      (Element.entriesOfAll parent index (Element.allWithout d.drops es))
      (Element.entriesOfAll parent index es') := by
  induction h generalizing parent index with
  | nil => simp
  | keep kept element inside _ ihi ihr =>
    rw [Element.allWithout_cons_of_keep kept, d.insertedAfter_of_nil hnone, List.nil_append,
      Element.entriesOfAll_cons, Element.entriesOfAll_cons, inside.size_eq hnone,
      Element.without_eq]
    refine .cons ⟨{ element with }, rfl, (inside.positions_eq hnone _).symm⟩ ?_
    exact List.rel_append (ihi _ _) (ihr _ _)
  | drop dropped _ ih =>
    rw [Element.allWithout_cons_of_drop dropped]
    exact ih parent index

/-- Entries that correspond are those of elements at one position. -/
theorem Element.exists_of_forall₂_entries {R : Element.Entry → Element.Entry → Prop}
    {i : Nat} {f f' : Element} (h : List.Forall₂ R (Element.entriesOfAll none 0 es)
      (Element.entriesOfAll none 0 es'))
    (hf : (Element.walkAll es)[i]? = some f) (hf' : (Element.walkAll es')[i]? = some f') :
    ∃ x x', x.element = f ∧ x'.element = f' ∧ R x x' := by
  rw [← Element.map_element_entriesOfAll none 0, List.getElem?_map, Option.map_eq_some_iff]
    at hf hf'
  obtain ⟨x, hx, rfl⟩ := hf
  obtain ⟨x', hx', rfl⟩ := hf'
  obtain ⟨hlt, rfl⟩ := List.getElem?_eq_some_iff.1 hx
  obtain ⟨hlt', rfl⟩ := List.getElem?_eq_some_iff.1 hx'
  exact ⟨_, _, rfl, rfl, h.get hlt hlt'⟩

end Entries

/-! ### Attributes -/

/-- An attribute keeps its name, and its value unless an edit between two places is inside it. -/
structure Attribute.Survives (start stop : Nat) (a a' : Attribute) : Prop where
  name : a'.name = a.name
  value : ¬(a.start < start ∧ stop < a.stop) → a'.value = a.value

/-- The attributes of an element apart from the first one with a name. -/
def Element.otherAttributes (e : Element) (name : String) : List Attribute :=
  e.attributes.eraseP fun a => a.name == name

section Attributes

variable {d : Splice} {place : Nat} {name : String} {e e' : Element} {a b : Attribute}
  {front back as as' : List Attribute}

/-- What the first attribute with a name stands between. -/
theorem Element.otherAttributes_eq (h : e.attributes = front ++ a :: back) (ha : a.name = name)
    (hfront : ∀ b ∈ front, b.name ≠ name) :
    e.attribute? name = some a ∧ e.otherAttributes name = front ++ back := by
  constructor
  · exact Element.attribute?_eq_some_iff.2 ⟨ha, front, back, h, hfront⟩
  · rw [Element.otherAttributes, h, List.eraseP_append_right _ (by simpa using hfront),
      List.eraseP_cons_of_pos (by simpa using ha)]

/-- Lists that correspond correspond in parts. -/
theorem forall₂_append_left {α β : Type} {R : α → β → Prop} {as bs : List α} {cs : List β}
    (h : List.Forall₂ R (as ++ bs) cs) :
    ∃ cs₁ cs₂, cs = cs₁ ++ cs₂ ∧ List.Forall₂ R as cs₁ ∧ List.Forall₂ R bs cs₂ := by
  induction as generalizing cs with
  | nil => exact ⟨[], cs, rfl, .nil, h⟩
  | cons a as ih =>
    obtain ⟨c, cs, hc, hcs, rfl⟩ := List.forall₂_cons_left_iff.1 h
    obtain ⟨cs₁, cs₂, rfl, has, hbs⟩ := ih hcs
    exact ⟨c :: cs₁, cs₂, rfl, .cons hc has, hbs⟩

/-- Attributes that are kept and not overwritten survive. -/
theorem forall₂_survives (h : List.Forall₂ (AttributeKept d place) as as')
    (hnot : ∀ a ∈ as, ¬d.Overwrites place a) :
    List.Forall₂ (Attribute.Survives d.start d.stop) as as' := by
  have hboth := (List.forall₂_and_left _ _).2 ⟨hnot, h⟩
  refine hboth.imp fun a a' ha => ?_
  exact ⟨ha.2.name, fun houtside => ha.2.value houtside ha.1⟩

theorem forall₂_name_ne (h : List.Forall₂ (AttributeKept d place) as as')
    (hne : ∀ a ∈ as, a.name ≠ name) : ∀ a' ∈ as', a'.name ≠ name := by
  induction h with
  | nil => simp
  | cons ha _ ih =>
    intro a' ha'
    rcases List.mem_cons.1 ha' with rfl | ha'
    · rw [ha.name]
      exact hne _ List.mem_cons_self
    · exact ih (fun b hb => hne b (List.mem_cons_of_mem _ hb)) a' ha'

/-- The attributes of an element that is not edited survive. -/
theorem ElementKept.survives (h : ElementKept d e e') (hne : e.start ≠ d.owner) :
    List.Forall₂ (Attribute.Survives d.start d.stop) e.attributes e'.attributes := by
  obtain ⟨front, back, hattributes, hkept⟩ := h.attributes
  rw [Splice.addedTo_of_ne hne, List.append_nil] at hattributes
  rw [hattributes]
  exact forall₂_survives hkept fun a _ hover => hne hover.2.1

/-- Where an attribute is overwritten, it has the written value, and the others survive. -/
theorem ElementKept.overwritten {lo hi : Nat} (h : ElementKept d e e') (howner : e.start = d.owner)
    (hadded : d.added = none) (hlt : d.start < d.stop)
    (hfound : e.attribute? name = some a) (hstart : a.start = d.start)
    (order : InOrder Attribute.start Attribute.stop lo e.attributes hi) :
    (∃ a', e'.attribute? name = some a' ∧ AttributeKept d e.start a a' ∧ a'.value = d.value) ∧
      List.Forall₂ (Attribute.Survives d.start d.stop) (e.otherAttributes name)
        (e'.otherAttributes name) := by
  obtain ⟨front, back, hattributes', hkept⟩ := h.attributes
  have hnone : d.addedTo e.start = [] := by simp [Splice.addedTo, hadded]
  rw [hnone, List.append_nil] at hattributes'
  rw [← hattributes'] at hkept
  obtain ⟨ha, before, after, hattributes, hbefore⟩ := Element.attribute?_eq_some_iff.1 hfound
  rw [hattributes] at hkept order
  obtain ⟨before', rest', hsplit, hfirst, hrest⟩ := forall₂_append_left hkept
  obtain ⟨a', after', hone, hlast, rfl⟩ := List.forall₂_cons_left_iff.1 hrest
  have hname : a'.name = name := hone.name.trans ha
  obtain ⟨hfound', hothers'⟩ :=
    Element.otherAttributes_eq hsplit hname (forall₂_name_ne hfirst hbefore)
  rw [hothers', (Element.otherAttributes_eq hattributes ha hbefore).2]
  refine ⟨⟨a', hfound', hone, hone.written ⟨hlt, howner, hstart⟩⟩, ?_⟩
  -- The other attributes end before the overwritten one or begin after it.
  have hapart := List.pairwise_append.1 order.pairwise
  refine List.rel_append (forall₂_survives hfirst fun b hb hover => ?_)
    (forall₂_survives hlast fun b hb hover => ?_)
  · have hstop := hapart.2.2 b hb a List.mem_cons_self
    have hb := order.of_mem (List.mem_append_left _ hb)
    have hplace := hover.2.2
    omega
  · have hstop := (List.pairwise_cons.1 hapart.2.1).1 b hb
    have ha := order.of_mem (List.mem_append_right before List.mem_cons_self)
    have hplace := hover.2.2
    omega

/-- Where an attribute is added, it is found under its name, and the others survive. -/
theorem ElementKept.added (h : ElementKept d e e') (howner : e.start = d.owner)
    (hadded : d.added = some b) (hb : b.name = name) (heq : d.start = d.stop)
    (hfound : e.attribute? name = none) :
    e'.attribute? name = some b ∧
      List.Forall₂ (Attribute.Survives d.start d.stop) (e.otherAttributes name)
        (e'.otherAttributes name) := by
  obtain ⟨front, back, hattributes', hkept⟩ := h.attributes
  have hone : d.addedTo e.start = [b] := by simp [Splice.addedTo, howner, hadded]
  rw [hone, List.append_assoc] at hattributes'
  have hnames := Element.attribute?_eq_none_iff.1 hfound
  -- The attributes before the new one have names of the old ones, so the new one is the first.
  have hfront : ∀ a' ∈ front, a'.name ≠ name := fun a' ha' =>
    forall₂_name_ne hkept hnames a' (List.mem_append_left _ ha')
  obtain ⟨hfound', hothers'⟩ := Element.otherAttributes_eq hattributes' hb hfront
  have hothers : e.otherAttributes name = e.attributes := by
    rw [Element.otherAttributes, List.eraseP_of_forall_not]
    simpa using hnames
  rw [hothers, hothers']
  refine ⟨hfound', forall₂_survives hkept fun a _ hover => ?_⟩
  have hlt := hover.1
  omega

end Attributes

/-! ### Entries with an edited one -/

/-- An entry survives an edit between two places which gives an attribute of the element at `place`
a text: it has the same tag and the same relations, the written attribute stands for the text, and
the other attributes survive. -/
structure Element.Entry.Survives (start stop place : Nat) (name : String) (text : List Char)
    (x x' : Element.Entry) : Prop where
  tag : x'.element.tag = x.element.tag
  selfClosing : x'.element.selfClosing = x.element.selfClosing
  parent : x'.parent = x.parent
  children : x'.children = x.children
  /-- The attributes of an element that is not edited. -/
  attributes : x.element.start ≠ place →
    List.Forall₂ (Attribute.Survives start stop) x.element.attributes x'.element.attributes
  /-- The attribute that is written. -/
  written : x.element.start = place → x'.element.textOf? name = some text
  /-- The other attributes of the edited element. -/
  others : x.element.start = place →
    List.Forall₂ (Attribute.Survives start stop) (x.element.otherAttributes name)
      (x'.element.otherAttributes name)

/-- The entries of elements that are kept survive, if the edited element does. -/
theorem Kept.survives {d : Splice} {source : List Char} {lo hi : Nat} {es es' : List Element}
    {e : Element} {name : String} {text : List Char} (h : Kept d es es') (hnone : d.inserted = [])
    (forest : Forest source lo es hi) (he : e ∈ Element.walkAll es) (howner : d.owner = e.start)
    (edited : ∀ e', ElementKept d e e' → e'.textOf? name = some text ∧
      List.Forall₂ (Attribute.Survives d.start d.stop) (e.otherAttributes name)
        (e'.otherAttributes name)) :
    List.Forall₂ (Element.Entry.Survives d.start d.stop e.start name text)
      (Element.entriesOfAll none 0 (Element.allWithout d.drops es))
      (Element.entriesOfAll none 0 es') := by
  have hmem : ∀ x ∈ Element.entriesOfAll none 0 (Element.allWithout d.drops es),
      ∃ f ∈ Element.walkAll es, x.element = f.without d.drops := by
    intro x hx
    refine Element.exists_of_mem_allWithout ?_
    rw [← Element.map_element_entriesOfAll none 0]
    exact List.mem_map_of_mem hx
  refine ((List.forall₂_and_left _ _).2 ⟨hmem, h.entries hnone none 0⟩).imp ?_
  rintro x x' ⟨⟨f, hf, hx⟩, kept⟩
  have hstart : x.element.start = f.start := by rw [hx, Element.without_eq]
  -- The element at the place of the edited one is the edited one.
  have hedited (hplace : x.element.start = e.start) : x'.element.textOf? name = some text ∧
      List.Forall₂ (Attribute.Survives d.start d.stop) (x.element.otherAttributes name)
        (x'.element.otherAttributes name) := by
    obtain rfl := forest.eq_of_start_eq hf he (hstart.symm.trans hplace)
    have hkept := kept.element
    rw [hx, Element.without_eq] at hkept ⊢
    exact edited _ { hkept with }
  exact {
    tag := kept.element.tag
    selfClosing := kept.element.selfClosing
    parent := kept.parent
    children := kept.children
    attributes := fun hne => kept.element.survives (howner ▸ hne)
    written := fun hplace => (hedited hplace).1
    others := fun hplace => (hedited hplace).2 }

end Mockup.Jsx
