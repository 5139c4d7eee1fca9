import Mathlib.Order.Bounds.Defs
import Mockup.Proofs.Jsx.FoundAgain
import Mockup.Proofs.Jsx.Subtree

/-!
# The element that a locator finds

A locator finds the first element whose text holds it, narrowed to the innermost one that still
does. Because elements hold what those inside them hold, this is the first element in document order
that holds the locator while none inside it does.

* `isInnermost p e` — `p` holds of an element and of none inside it.
* `Innermost p entries i` — the same for the entry at a position, by the relations between entries.
* `narrowedFrom? p entries i` — where narrowing goes on to from a position.

## Main results

* `Upward.find?_isInnermost`: narrowing ends at the first innermost element.
* `exists_narrowing`: narrowing from position to position goes the same way.
* `find?_of_scan`: what a locator finds in a text.
-/

namespace Mockup.Jsx

namespace Element

/-- Whether `p` holds of an element and of none inside it. -/
def isInnermost (p : Element → Bool) (e : Element) : Bool :=
  p e && (walkAll e.children).all fun f => !p f

/-- `p` holds of the entry at a position and of no entry that descends from it. -/
def Innermost (p : Element → Bool) (entries : List Entry) (i : Nat) : Prop :=
  ∃ x : Entry, entries[i]? = some x ∧ p x.element = true ∧
    ∀ (j : Nat) (y : Entry), Descends entries j i → entries[j]? = some y → p y.element = false

/-- Whether there is an entry at a position and `p` holds of it. -/
def holdsAt (p : Element → Bool) (entries : List Entry) (i : Nat) : Bool :=
  entries[i]?.any fun x => p x.element

/-- The position that narrowing goes on to from a position: that of the first child of which `p`
holds. -/
def narrowedFrom? (p : Element → Bool) (entries : List Entry) (i : Nat) : Option Nat :=
  entries[i]?.bind fun x => x.children.find? (holdsAt p entries)

/-- Narrowing leads from a position to another one, where it ends. -/
def NarrowsTo (p : Element → Bool) (entries : List Entry) (i j : Nat) : Prop :=
  Relation.ReflTransGen (fun k l => narrowedFrom? p entries k = some l) i j ∧
    narrowedFrom? p entries j = none

/-! ### Innermost elements -/

section Innermost

variable {p : Element → Bool} {e : Element} {es : List Element}

/-- Where no element satisfies `p`, none inside them does. -/
theorem Upward.eq_false (h : Upward p es) (hes : ∀ e ∈ es, p e = false) :
    ∀ f ∈ walkAll es, p f = false := by
  induction es with
  | nil => simp
  | cons e es ih =>
    obtain ⟨he, hes⟩ := List.forall_mem_cons.1 hes
    intro f hf
    rw [walkAll_cons, List.mem_cons, List.mem_append] at hf
    rcases hf with rfl | hf | hf
    · exact he
    · rw [Bool.eq_false_iff]
      intro hpf
      rw [h e (by simp) f hf hpf] at he
      cases he
    · exact ih h.tail hes f hf

/-- Narrowing ends at the first innermost element. -/
theorem Upward.find?_isInnermost (h : Upward p es) :
    (walkAll es).find? (isInnermost p) = narrowIn p es := by
  induction es using forest_induction with
  | nil => simp [narrowIn]
  | cons e es ihc ihs =>
    have hinside := ihc h.children
    have hothers := ihs h.tail
    rw [walkAll_cons]
    cases hin : narrowIn p e.children with
    | none =>
      -- Nothing inside satisfies `p`, so the element itself is innermost if it does.
      have hnone := h.children.eq_false (narrowIn_eq_none_iff.1 hin)
      rw [hin] at hinside
      cases hp : p e with
      | true =>
        have hinnermost : isInnermost p e = true := by simpa [isInnermost, hp] using hnone
        rw [List.find?_cons_of_pos hinnermost, narrowIn_cons_of_pos hp, narrow_eq, hin,
          Option.getD_none]
      | false =>
        have hinnermost : isInnermost p e = false := by simp [isInnermost, hp]
        rw [List.find?_cons_of_neg (by simp [hinnermost]), narrowIn_cons_of_neg hp,
          List.find?_append, hinside, Option.none_or, hothers]
    | some g =>
      -- Something inside satisfies `p`, and so does the element, which is not innermost.
      rw [hin] at hinside
      have hg := List.mem_of_find?_eq_some hinside
      have hpg : p g = true := by
        have hginner := List.find?_some hinside
        rw [isInnermost, Bool.and_eq_true] at hginner
        exact hginner.1
      have hp := h e (by simp) g hg hpg
      have hinnermost : ¬isInnermost p e = true := by
        simpa [isInnermost, hp] using ⟨g, hg, hpg⟩
      rw [List.find?_cons_of_neg hinnermost, List.find?_append, hinside, Option.some_or,
        narrowIn_cons_of_pos hp, narrow_eq, hin, Option.getD_some]

/-- An entry is innermost by its relations exactly if its element is. -/
theorem innermost_iff {i : Nat} {x : Entry} (hx : (entriesOfAll none 0 es)[i]? = some x) :
    Innermost p (entriesOfAll none 0 es) i ↔ isInnermost p x.element = true := by
  -- Entries below the one at `i` and elements inside its element are the same.
  have hinside : (∀ f ∈ walkAll x.element.children, p f = false) ↔
      ∀ (j : Nat) (y : Entry), Descends (entriesOfAll none 0 es) j i →
        (entriesOfAll none 0 es)[j]? = some y → p y.element = false := by
    constructor
    · intro h j y hdescends hy
      exact h _ ((exists_descends_iff hx).1 ⟨j, y, hdescends, hy, rfl⟩)
    · intro h f hf
      obtain ⟨j, y, hdescends, hy, rfl⟩ := (exists_descends_iff hx).2 hf
      exact h j y hdescends hy
  have hiff : isInnermost p x.element = true ↔
      p x.element = true ∧ ∀ f ∈ walkAll x.element.children, p f = false := by
    simp [isInnermost]
  rw [hiff, hinside]
  constructor
  · rintro ⟨x', hx', hp, hnone⟩
    obtain rfl : x = x' := by simpa [hx] using hx'
    exact ⟨hp, hnone⟩
  · rintro ⟨hp, hnone⟩
    exact ⟨x, hx, hp, hnone⟩

/-- The first innermost element is that of the entry at the least innermost position. -/
theorem find?_isInnermost_eq_some_iff :
    (walkAll es).find? (isInnermost p) = some e ↔
      ∃ i x, IsLeast {i | Innermost p (entriesOfAll none 0 es) i} i ∧
        (entriesOfAll none 0 es)[i]? = some x ∧ x.element = e := by
  rw [← map_element_entriesOfAll none 0 es, List.find?_map, Option.map_eq_some_iff]
  simp only [List.find?_eq_some_iff_getElem]
  constructor
  · rintro ⟨x, ⟨hx, i, hi, rfl, hfirst⟩, rfl⟩
    have hget := List.getElem?_eq_getElem hi
    refine ⟨i, _, ⟨(innermost_iff hget).2 hx, fun j hj => ?_⟩, hget, rfl⟩
    obtain ⟨y, hy, -⟩ := id hj
    obtain ⟨hlt, rfl⟩ := List.getElem?_eq_some_iff.1 hy
    -- An innermost entry before the first one that is found would have been found.
    refine Nat.le_of_not_lt fun hji => ?_
    have hnot := hfirst j hji
    rw [Function.comp, (innermost_iff hy).1 hj] at hnot
    cases hnot
  · rintro ⟨i, x, ⟨hinner, hleast⟩, hx, rfl⟩
    obtain ⟨hi, rfl⟩ := List.getElem?_eq_some_iff.1 hx
    refine ⟨_, ⟨(innermost_iff hx).1 hinner, i, hi, rfl, fun j hji => ?_⟩, rfl⟩
    have hget := List.getElem?_eq_getElem (Nat.lt_trans hji hi)
    simp only [Function.comp]
    rw [Bool.not_eq_true', Bool.eq_false_iff]
    intro hj
    exact absurd (hleast ((innermost_iff hget).2 hj)) (Nat.not_le_of_lt hji)

end Innermost

/-! ### Narrowing by positions -/

section Narrowing

variable {p : Element → Bool} {e f : Element} {es : List Element} {all : List Entry}
  {parent : Option Nat} {index i j : Nat}

theorem holdsAt_of_getElem? {x : Entry} (h : all[i]? = some x) : holdsAt p all i = p x.element := by
  rw [holdsAt, h, Option.any_some]

/-- Of the entries of some elements none is found if `p` holds of none of the elements. -/
theorem find?_positions_eq_none (h : entriesOfAll parent index es <+: all.drop index)
    (hes : ∀ e ∈ es, p e = false) : (positions index es).find? (holdsAt p all) = none := by
  induction es generalizing index with
  | nil => rfl
  | cons e es ih =>
    obtain ⟨hhead, -, hrest⟩ := parts_of_prefix h
    obtain ⟨he, hes⟩ := List.forall_mem_cons.1 hes
    rw [positions, List.find?_cons_of_neg, ih hrest hes]
    rw [holdsAt_of_getElem? hhead, he]
    exact Bool.false_ne_true

/-- Narrowing from position to position leads to the element that narrowing leads to. -/
theorem exists_narrowing (h : entriesOfAll parent index es <+: all.drop index)
    (hf : narrowIn p es = some f) :
    ∃ i j x, (positions index es).find? (holdsAt p all) = some i ∧ NarrowsTo p all i j ∧
      all[j]? = some x ∧ x.element = f := by
  induction es using forest_induction generalizing parent index f with
  | nil => simp [narrowIn] at hf
  | cons e es ihc ihs =>
    obtain ⟨hhead, hchildren, hrest⟩ := parts_of_prefix h
    have hholds : holdsAt p all index = p e := holdsAt_of_getElem? hhead
    have hnext : narrowedFrom? p all index =
        (positions (index + 1) e.children).find? (holdsAt p all) := by
      rw [narrowedFrom?, hhead, Option.bind_some]
    rw [positions]
    cases hp : p e with
    | false =>
      rw [narrowIn_cons_of_neg hp] at hf
      rw [List.find?_cons_of_neg (by simp [hholds, hp])]
      exact ihs hrest hf
    | true =>
      rw [narrowIn_cons_of_pos hp, narrow_eq, Option.some_inj] at hf
      refine ⟨index, ?_⟩
      rw [List.find?_cons_of_pos (by rw [hholds, hp])]
      cases hin : narrowIn p e.children with
      | none =>
        -- No child satisfies `p`, and narrowing ends here.
        rw [hin, Option.getD_none] at hf
        have hend : narrowedFrom? p all index = none := by
          rw [hnext]
          exact find?_positions_eq_none hchildren (narrowIn_eq_none_iff.1 hin)
        exact ⟨index, _, rfl, ⟨.refl, hend⟩, hhead, hf⟩
      | some g =>
        rw [hin, Option.getD_some] at hf
        obtain ⟨i, j, x, hi, ⟨hsteps, hend⟩, hx, rfl⟩ := ihc hchildren hin
        rw [← hnext] at hi
        exact ⟨j, x, rfl, ⟨.head hi hsteps, hend⟩, hx, hf⟩

/-- The first entry in document order that satisfies `p` is that of an outermost element. -/
theorem Upward.findIdx?_entriesOfAll (h : Upward p es)
    (hall : entriesOfAll parent index es <+: all.drop index) :
    (entriesOfAll parent index es).findIdx? (fun x => p x.element) =
      ((positions index es).find? (holdsAt p all)).map (· - index) := by
  induction es generalizing index with
  | nil => simp [positions]
  | cons e es ih =>
    obtain ⟨hhead, -, hrest⟩ := parts_of_prefix hall
    have hholds : holdsAt p all index = p e := holdsAt_of_getElem? hhead
    rw [entriesOfAll_cons, positions, List.findIdx?_cons]
    cases hp : p e with
    | true =>
      rw [List.find?_cons_of_pos (by rw [hholds, hp])]
      simp
    | false =>
      -- If the element does not satisfy `p`, nothing inside it does, and the search goes on behind
      -- it.
      have hinside : (entriesOfAll (some index) (index + 1) e.children).findIdx?
          (fun x => p x.element) = none := by
        rw [List.findIdx?_eq_none_iff]
        intro x hx
        have hmem : x.element ∈ walkAll e.children := by
          rw [← map_element_entriesOfAll (some index) (index + 1) e.children]
          exact List.mem_map_of_mem hx
        rw [Bool.eq_false_iff]
        intro hpx
        rw [h e (by simp) x.element hmem hpx] at hp
        cases hp
      rw [List.find?_cons_of_neg (by simp [hholds, hp]), List.findIdx?_append, hinside,
        Option.none_or, ih h.tail hrest, length_entriesOfAll, if_neg Bool.false_ne_true,
        Option.map_map, Option.map_map]
      refine Option.map_congr fun k hk => ?_
      have hle := (positions_increasing (index + e.size) es).2 k (List.mem_of_find?_eq_some hk)
      have hsize := size_eq e
      simp only [Function.comp]
      omega

/-- A step of narrowing goes forward in the list of entries. -/
theorem lt_of_narrowedFrom? (h : narrowedFrom? p (entriesOfAll none 0 es) i = some j) :
    i < j ∧ j < (entriesOfAll none 0 es).length := by
  obtain ⟨x, hx, hfind⟩ := Option.bind_eq_some_iff.1 h
  have hmem := List.mem_of_find?_eq_some hfind
  rw [children_eq_positions hx] at hmem
  have hle := (positions_increasing _ _).2 j hmem
  have hholds := List.find?_some hfind
  refine ⟨hle, Nat.lt_of_not_le fun hge => ?_⟩
  rw [holdsAt, List.getElem?_eq_none hge] at hholds
  cases hholds

/-- Narrowing ends, whatever it starts from. -/
theorem exists_narrowsTo (p : Element → Bool) (es : List Element) (i : Nat) :
    ∃ j, NarrowsTo p (entriesOfAll none 0 es) i j := by
  -- The entries behind the position become fewer with every step.
  induction hn : (entriesOfAll none 0 es).length - i using Nat.strong_induction_on
    generalizing i with
  | _ n ih =>
    cases hnext : narrowedFrom? p (entriesOfAll none 0 es) i with
    | none => exact ⟨i, .refl, hnext⟩
    | some k =>
      obtain ⟨hlt, hle⟩ := lt_of_narrowedFrom? hnext
      obtain ⟨j, hsteps, hend⟩ := ih _ (by omega) k rfl
      exact ⟨j, .head hnext hsteps, hend⟩

end Narrowing

/-! ### Locators -/

/-- What a locator finds among the elements of a text. -/
structure Locates (source locator : List Char) (es : List Element) : Prop where
  /-- Nothing is found exactly if no element holds the locator. -/
  eq_none_iff : find? source locator es = none ↔
    ∀ x ∈ entriesOfAll none 0 es, holds source locator x.element = false
  /-- What is found is at the least position where an entry holds the locator while none that
  descends from it does. -/
  eq_some_iff : ∀ e, find? source locator es = some e ↔
    ∃ i x, IsLeast {i | Innermost (holds source locator) (entriesOfAll none 0 es) i} i ∧
      (entriesOfAll none 0 es)[i]? = some x ∧ x.element = e
  /-- Narrowing from the first entry that holds the locator, each time to the first child that does,
  ends there. -/
  narrowsTo : ∀ i, (entriesOfAll none 0 es).findIdx? (fun x => holds source locator x.element) =
    some i → ∃ j, NarrowsTo (holds source locator) (entriesOfAll none 0 es) i j ∧
      IsLeast {i | Innermost (holds source locator) (entriesOfAll none 0 es) i} j
  /-- Narrowing ends, whatever it starts from. -/
  ends : ∀ i, ∃ j, NarrowsTo (holds source locator) (entriesOfAll none 0 es) i j

end Element

section Locators

variable {source : List Char} {lo hi : Nat} {es : List Element}

/-- Different entries have different elements. -/
theorem Forest.position_eq (h : Forest source lo es hi) {i j : Nat} {x y : Element.Entry}
    (hx : (Element.entriesOfAll none 0 es)[i]? = some x)
    (hy : (Element.entriesOfAll none 0 es)[j]? = some y) (heq : x.element = y.element) : i = j := by
  obtain ⟨hi, rfl⟩ := List.getElem?_eq_some_iff.1 hx
  obtain ⟨hj, rfl⟩ := List.getElem?_eq_some_iff.1 hy
  have hstarts := List.pairwise_iff_getElem.1 h.wellNested.starts_increasing
  rcases Nat.lt_trichotomy i j with hlt | rfl | hlt
  · have hstart := hstarts i j hi hj hlt
    rw [heq] at hstart
    exact absurd hstart (Nat.lt_irrefl _)
  · rfl
  · have hstart := hstarts j i hj hi hlt
    rw [heq] at hstart
    exact absurd hstart (Nat.lt_irrefl _)

/-- Among elements that lie inside one another, a locator finds the first innermost one. -/
theorem Forest.locates (h : Forest source lo es hi) (locator : List Char) :
    Element.Locates source locator es := by
  have upward := h.upward_holds locator
  have hfind : Element.find? source locator es =
      Element.narrowIn (Element.holds source locator) es := upward.map_find?
  have hsome (e : Element) : Element.find? source locator es = some e ↔
      ∃ i x, IsLeast {i | Element.Innermost (Element.holds source locator)
          (Element.entriesOfAll none 0 es) i} i ∧
        (Element.entriesOfAll none 0 es)[i]? = some x ∧ x.element = e := by
    rw [hfind, ← upward.find?_isInnermost, Element.find?_isInnermost_eq_some_iff]
  have hprefix : Element.entriesOfAll none 0 es <+: (Element.entriesOfAll none 0 es).drop 0 :=
    List.prefix_refl _
  refine ⟨?_, hsome, fun i hi => ?_, Element.exists_narrowsTo _ es⟩
  · rw [Element.find?, Option.map_eq_none_iff, List.find?_eq_none,
      ← Element.map_element_entriesOfAll none 0 es, List.forall_mem_map]
    simp only [Bool.not_eq_true]
  · rw [upward.findIdx?_entriesOfAll hprefix] at hi
    obtain ⟨first, hfirst, rfl⟩ := Option.map_eq_some_iff.1 hi
    obtain ⟨f, hf⟩ : ∃ f, Element.narrowIn (Element.holds source locator) es = some f := by
      refine Option.ne_none_iff_exists'.1 fun hnone => ?_
      rw [Element.find?_positions_eq_none hprefix (Element.narrowIn_eq_none_iff.1 hnone)] at hfirst
      cases hfirst
    obtain ⟨i, j, x, hi, hnarrows, hx, hxf⟩ := Element.exists_narrowing hprefix hf
    obtain rfl : first = i := by simpa [hfirst] using hi
    -- The element that narrowing ends at stands at one position only.
    obtain ⟨k, y, hleast, hy, hyf⟩ := (hsome f).1 (hfind.trans hf)
    obtain rfl := h.position_eq hx hy (hxf.trans hyf.symm)
    exact ⟨j, hnarrows, hleast⟩

/-- In a text that can be scanned, a locator finds the first innermost element whose text holds it.
-/
theorem find?_of_scan (h : scan source = .ok es) (locator : List Char) :
    Element.Locates source locator es :=
  (forest_of_scan h).locates locator

/-- The first element that holds the locator has two children that do, and the first of these holds
it in its second child only. -/
theorem find?_of_scan_nested : ∃ es,
    scan "a = <p><b><u/><i>x</i></b><i>x</i></p>".toList = .ok es ∧
      Element.Locates "a = <p><b><u/><i>x</i></b><i>x</i></p>".toList "x".toList es ∧
      (Element.find? "a = <p><b><u/><i>x</i></b><i>x</i></p>".toList "x".toList es).map
        Element.start = some 14 :=
  ⟨_, rfl, find?_of_scan rfl _, by decide +kernel⟩

end Locators

end Mockup.Jsx
