import Mockup.Proofs.Jsx.AttributeEdit

/-!
# Finding an edited element again

A locator finds the first element whose text holds it, narrowed to the innermost one that does. What
an element holds, all elements around it hold too, so the search goes down from the outermost
elements. An edit in an opening tag changes the texts of the edited element and of those around it
only. So the search goes down to the edited element again, if its text still holds the locator.

## Main results

* `Element.Upward.map_find?`: a search goes down from the outermost elements.
* `Kept.exists_again`: after an edit, a search that ended at the edited element ends there again.
* `AttributeWritten.exists_again`: the edited element is found again, with the attribute that was
  written.
-/

namespace Mockup.Jsx

variable {source next : List Char}

/-! ### The texts of elements -/

section Texts

variable {d : Splice} {f f' : Element}

/-- The text of an element apart from the edited one and from those around it stays the same. -/
theorem ElementKept.textIn_eq (h : ElementKept d f f') (edits : d.Edits source next)
    (sound : f.Sound source) (hapart : d.owner < f.start ∨ f.stop ≤ d.start) :
    f'.textIn next = f.textIn source := by
  obtain ⟨front, old, new, back, rfl, rfl, hfront, hold, hnew⟩ := edits
  have hplaced := sound.placed
  have hle : f.start ≤ f.stop := by
    have hname := hplaced.start_lt
    have hopenEnd := hplaced.nameEnd_le
    have hstop := hplaced.openEnd_le
    omega
  unfold Element.textIn
  cases h.sited with
  | before hstop hstart' hstop' =>
    have hboundary := hplaced.isBoundary_start
    rw [List.append_assoc] at hboundary
    rw [hstart', hstop', List.append_assoc, List.append_assoc]
    exact Text.slice_append_of_le hboundary hle (hfront ▸ hstop) _
  | around howner _ hlt _ =>
    have hstart := d.start_le
    omega
  | after hstart hstop =>
    -- Both ends lie as far behind the new text as they lay behind the old one.
    obtain ⟨k, hk⟩ := Nat.exists_eq_add_of_le hstart.1
    obtain ⟨l, hl⟩ := Nat.exists_eq_add_of_le hstop.1
    have hk' : f'.start = d.newStop + k := by
      have := hstart.2
      omega
    have hl' : f'.stop = d.newStop + l := by
      have := hstop.2
      omega
    rw [hk, hl, hk', hl', ← hold, ← hnew, Text.slice_append_add, Text.slice_append_add]

end Texts

/-! ### Searches -/

namespace Element

section Search

variable {p : Element → Bool} {e : Element} {es : List Element}

/-- With an element all those around it satisfy `p`. -/
def Upward (p : Element → Bool) (es : List Element) : Prop :=
  ∀ e ∈ walkAll es, ∀ f ∈ walkAll e.children, p f = true → p e = true

theorem Upward.children (h : Upward p (e :: es)) : Upward p e.children := fun f hf =>
  h f (by simp [hf])

theorem Upward.tail (h : Upward p (e :: es)) : Upward p es := fun f hf => h f (by simp [hf])

/-- A search fails if it cannot begin. -/
theorem narrowIn_eq_none_iff : narrowIn p es = none ↔ ∀ e ∈ es, p e = false := by
  induction es with
  | nil => simp [narrowIn]
  | cons e es ih =>
    rw [narrowIn, List.forall_mem_cons]
    cases p e with
    | true => simp
    | false => simpa using ih

theorem narrowIn_cons_of_pos (h : p e = true) : narrowIn p (e :: es) = some (e.narrow p) := by
  rw [narrowIn, if_pos h]

theorem narrowIn_cons_of_neg (h : p e = false) : narrowIn p (e :: es) = narrowIn p es := by
  rw [narrowIn, if_neg (by simp [h])]

/-- The first element in document order that satisfies `p` is an outermost one. -/
theorem Upward.map_find? (h : Upward p es) :
    ((walkAll es).find? p).map (narrow p) = narrowIn p es := by
  induction es with
  | nil => simp [narrowIn]
  | cons e es ih =>
    cases hp : p e with
    | true => rw [narrowIn_cons_of_pos hp, walkAll_cons, List.find?_cons_of_pos hp, Option.map_some]
    | false =>
      have hchildren : (walkAll e.children).find? p = none := by
        rw [List.find?_eq_none]
        intro f hf hpf
        rw [h e (by simp) f hf hpf] at hp
        cases hp
      rw [narrowIn_cons_of_neg hp, walkAll_cons, List.find?_cons_of_neg (by simp [hp]),
        List.find?_append, hchildren, Option.none_or, ih h.tail]

end Search

end Element

/-- What an element holds, those around it hold. -/
theorem Forest.upward_holds {lo hi : Nat} {es : List Element} (h : Forest source lo es hi)
    (locator : List Char) : Element.Upward (Element.holds source locator) es := by
  intro e he f hf hholds
  have sound := h.2 e he
  have soundInside := h.2 f (Element.walkAll_children_subset he f hf)
  have inside : Forest source (e.start + 1) e.children (e.stop - 1) :=
    ⟨sound.children, fun g hg => h.2 g (Element.walkAll_children_subset he g hg)⟩
  obtain ⟨hstart, hlt, hstop⟩ := inside.bounds hf
  have hpart : f.textIn source <:+: e.textIn source :=
    Text.slice_infix soundInside.placed.isBoundary_start soundInside.placed.isBoundary_stop
      sound.placed.isBoundary_start sound.placed.isBoundary_stop (by omega) (by omega) (by omega)
  exact Text.contains_iff.2 ((Text.contains_iff.1 hholds).trans hpart)

/-! ### Searches after an edit -/

section Edited

variable {d : Splice} {e : Element} {es es' : List Element}

/-- What is kept comes from an element that was there. -/
theorem Kept.exists_of_mem (h : Kept d es es') (hnone : d.inserted = []) {f' : Element}
    (hf' : f' ∈ es') : ∃ f ∈ es, ElementKept d f f' := by
  induction h with
  | nil => simp at hf'
  | @keep g _ _ _ _ element _ _ _ ih =>
    rw [d.insertedAfter_of_nil hnone, List.nil_append] at hf'
    rcases List.mem_cons.1 hf' with rfl | hf'
    · exact ⟨g, List.mem_cons_self, element⟩
    · obtain ⟨f, hf, kept⟩ := ih hf'
      exact ⟨f, List.mem_cons_of_mem _ hf, kept⟩
  | drop _ _ ih =>
    obtain ⟨f, hf, kept⟩ := ih hf'
    exact ⟨f, List.mem_cons_of_mem _ hf, kept⟩

/-- As many elements lie in one that ends before the edit as before. -/
theorem Kept.length_walkAll_of_le {lo hi : Nat} (h : Kept d es es') (hnone : d.inserted = [])
    (forest : Forest source lo es hi) (hhi : hi ≤ d.start) :
    (Element.walkAll es').length = (Element.walkAll es).length := by
  have hall : Element.allWithout d.drops es = es :=
    Element.allWithout_eq_self fun f hf => by
      have hbounds := forest.bounds hf
      exact d.drops_eq_false (.inl (by omega))
  rw [← h.length_walkAll hnone, hall]

/-- What an edit made of an element is at the same position in document order, and a search by `p'`
ends there if `p'` holds of it. -/
structure Element.Again (d : Splice) (p' : Element → Bool) (es es' : List Element)
    (e e' : Element) : Prop where
  position : ∃ i : Nat, (walkAll es)[i]? = some e ∧ (walkAll es')[i]? = some e'
  kept : ElementKept d e e'
  found : p' e' = true → narrowIn p' es' = some e'

section Again

variable {p' : Element → Bool} {e' f f' : Element}

/-- The search stops at the first element if it has nothing to go down to. -/
theorem Element.Again.head (kept : ElementKept d e e') (hinside : narrowIn p' e'.children = none) :
    Again d p' (e :: es) (e' :: es') e e' where
  position := ⟨0, by rw [walkAll_cons, walkAll_cons]; exact ⟨rfl, rfl⟩⟩
  kept := kept
  found hp' := by
    rw [narrowIn_cons_of_pos hp', narrow_eq, hinside]
    rfl

/-- The search goes down into the first element. -/
theorem Element.Again.child (h : Again d p' f.children f'.children e e')
    (upward : Upward p' (f' :: es')) : Again d p' (f :: es) (f' :: es') e e' where
  position := by
    obtain ⟨i, hi, hi'⟩ := h.position
    refine ⟨i + 1, ?_, ?_⟩
    · rw [walkAll_cons, List.getElem?_cons_succ,
        List.getElem?_append_left (List.getElem?_eq_some_iff.1 hi).1]
      exact hi
    · rw [walkAll_cons, List.getElem?_cons_succ,
        List.getElem?_append_left (List.getElem?_eq_some_iff.1 hi').1]
      exact hi'
  kept := h.kept
  found hp' := by
    -- The element around holds what the one inside holds.
    obtain ⟨i, -, hi'⟩ := h.position
    have hpf' := upward f' (by simp) e' (List.mem_of_getElem? hi') hp'
    rw [narrowIn_cons_of_pos hpf', narrow_eq, h.found hp']
    rfl

/-- The search passes by the first element, which has as many below it as before. -/
theorem Element.Again.tail (h : Again d p' es es' e e') (hpf' : p' f' = false)
    (hlength : (walkAll f'.children).length = (walkAll f.children).length) :
    Again d p' (f :: es) (f' :: es') e e' where
  position := by
    obtain ⟨i, hi, hi'⟩ := h.position
    refine ⟨(walkAll f.children).length + i + 1, ?_, ?_⟩
    · rw [walkAll_cons, List.getElem?_cons_succ, List.getElem?_append_right (Nat.le_add_right _ _),
        Nat.add_sub_cancel_left]
      exact hi
    · rw [walkAll_cons, List.getElem?_cons_succ, ← hlength,
        List.getElem?_append_right (Nat.le_add_right _ _), Nat.add_sub_cancel_left]
      exact hi'
  kept := h.kept
  found hp' := by
    rw [narrowIn_cons_of_neg hpf', h.found hp']

/-- After an edit, a search that ended at the edited element ends there again, if what is asked of
elements has the same answer for all those apart from the edited one and from those around it. -/
theorem Kept.exists_again {p : Element → Bool} {lo hi : Nat} (h : Kept d es es')
    (hnone : d.inserted = []) (forest : Forest source lo es hi) (upward : Element.Upward p' es')
    (same : ∀ f f', f.Sound source → ElementKept d f f' → d.owner < f.start ∨ f.stop ≤ d.start →
      p' f' = p f)
    (hfound : Element.narrowIn p es = some e) (howner : d.owner = e.start) :
    ∃ e', Element.Again d p' es es' e e' := by
  have howner_lt := d.owner_lt
  -- The search meets the elements in order, so the induction follows it along what is kept. The
  -- element at hand is the one where the search stops, or goes down, or which it passes by.
  induction h generalizing lo hi with
  | nil => simp [Element.narrowIn] at hfound
  | @keep f f' fs fs' _ element inside _ ihInside ihRest =>
    have sound : f.Sound source := forest.2 f (by simp)
    rw [d.insertedAfter_of_nil hnone, List.nil_append] at upward ⊢
    cases hp : p f with
    | true =>
      rw [Element.narrowIn_cons_of_pos hp, Element.narrow_eq, Option.some.injEq] at hfound
      cases hinside : Element.narrowIn p f.children with
      | none =>
        obtain rfl : f = e := by rwa [hinside] at hfound
        refine ⟨f', .head element ?_⟩
        -- What is inside the edited element has the text that it had.
        rw [Element.narrowIn_eq_none_iff] at hinside ⊢
        intro g' hg'
        obtain ⟨g, hg, kept⟩ := inside.exists_of_mem hnone hg'
        have hmem := Element.mem_walkAll_of_mem hg
        have hbounds := forest.children.bounds hmem
        rw [same g g' (forest.children.2 g hmem) kept (.inl (by omega)), hinside g hg]
      | some g =>
        obtain rfl : g = e := by rwa [hinside] at hfound
        obtain ⟨e', again⟩ := ihInside forest.children upward.children hinside
        exact ⟨e', again.child upward⟩
    | false =>
      rw [Element.narrowIn_cons_of_neg hp] at hfound
      have hbounds := forest.tail.bounds (Element.mem_walkAll_of_narrowIn hfound)
      -- What the search passes by ends before the edited element begins.
      have hbefore : f.stop ≤ d.start := by omega
      have hpf' : p' f' = false := (same f f' sound element (.inr hbefore)).trans hp
      obtain ⟨e', again⟩ := ihRest forest.tail upward.tail hfound
      exact ⟨e', again.tail hpf'
        (inside.length_walkAll_of_le hnone forest.children (by omega))⟩
  | @drop f fs fs' dropped _ _ =>
    -- The edited element begins before the replaced text, so none in that text comes before it.
    have hwithin := d.drops_within f dropped
    have hstart := forest.head_le (Element.mem_walkAll_of_narrowIn hfound)
    omega

end Again

/-- An element of a text and what an edit made of it: at the same position in document order, at
the same place and with the same tag. -/
structure Element.Same (es es' : List Element) (e e' : Element) : Prop where
  position : ∃ i : Nat, (walkAll es)[i]? = some e ∧ (walkAll es')[i]? = some e'
  start : e'.start = e.start
  tag : e'.tag = e.tag

/-- The edited element begins where it began. -/
theorem ElementKept.start_eq {e' : Element} (h : ElementKept d e e') (howner : d.owner = e.start) :
    e'.start = e.start := by
  cases h.sited with
  | before _ hstart _ => exact hstart
  | around _ hstart _ _ => exact hstart
  | after hstart _ => exact absurd howner.symm hstart.ne_owner

/-- An element that was edited bears the written attribute and is found again by the same locator,
if its text still holds it. -/
theorem AttributeWritten.exists_again {locator text : List Char} {name : String} {value : Value}
    (h : AttributeWritten d source next es es' e name text value) (hscan : scan source = .ok es)
    (hfind : Element.find? source locator es = some e) :
    ∃ e', Element.Same es es' e e' ∧ e'.Bears next name text value ∧
      (Element.holds next locator e' = true → Element.find? next locator es' = some e') := by
  have upward := (forest_of_scan hscan).upward_holds locator
  have upward' := (forest_of_scan h.scanned).upward_holds locator
  have hfound : Element.narrowIn (Element.holds source locator) es = some e := by
    rw [← upward.map_find?]
    exact hfind
  have same (f f' : Element) (sound : f.Sound source) (kept : ElementKept d f f')
      (hapart : d.owner < f.start ∨ f.stop ≤ d.start) :
      Element.holds next locator f' = Element.holds source locator f := by
    rw [Element.holds, Element.holds, kept.textIn_eq h.edits sound hapart]
  obtain ⟨e', again⟩ :=
    h.kept.exists_again h.inserted (forest_of_scan hscan) upward' same hfound h.owner
  refine ⟨e', ⟨again.position, again.kept.start_eq h.owner, again.kept.tag⟩,
    h.bears e' again.kept, fun hholds => ?_⟩
  rw [Element.find?, upward'.map_find?]
  exact again.found hholds

end Edited

end Mockup.Jsx
