import Mathlib.Logic.Relation
import Mockup.Proofs.Jsx.DocumentOrder

/-!
# Subtrees in document order

In the list of all entries, what is inside an element follows it at once: the entries of an element
stand at its own position and at those that follow, as many as it has elements. These are the
entries that lead to it from parent to parent.

* `Descends entries j i` — the entry at `j` leads to the one at `i` from parent to parent.

## Main results

* `entries_prefix_drop`: the entries of an element stand together.
* `descends_iff`: an entry is inside another one exactly if it is one of those.
-/

namespace Mockup.Jsx.Element

/-- The entry at a position leads to the one at another position from parent to parent. -/
def Descends (entries : List Entry) : Nat → Nat → Prop :=
  Relation.TransGen fun j i => ∃ x : Entry, entries[j]? = some x ∧ x.parent = some i

variable {parent : Option Nat} {index i j : Nat} {es : List Element} {x y : Entry}

/-- The entries of an element, which may stand in a longer list, stand together. -/
theorem entries_prefix_drop (hx : (entriesOfAll parent index es)[i]? = some x) :
    entries x.parent (index + i) x.element <+: (entriesOfAll parent index es).drop i := by
  induction es using forest_induction generalizing parent index i with
  | nil => simp at hx
  | cons e es ihc ihs =>
    rw [entriesOfAll_cons] at hx ⊢
    cases i with
    | zero =>
      cases hx
      rw [Nat.add_zero, entries_eq, List.drop_zero]
      exact List.cons_prefix_cons.2 ⟨rfl, List.prefix_append _ _⟩
    | succ k =>
      rw [List.getElem?_cons_succ, List.getElem?_append, length_entriesOfAll] at hx
      rw [List.drop_succ_cons, List.drop_append, length_entriesOfAll]
      split at hx
      · -- The entry is inside the first element.
        have hprefix := ihc hx
        rw [Nat.add_assoc, Nat.add_comm 1 k] at hprefix
        exact hprefix.trans (List.prefix_append _ _)
      · next hle =>
        have hprefix := ihs hx
        have hposition : index + e.size + (k - (walkAll e.children).length) = index + (k + 1) := by
          rw [size_eq]
          omega
        have hpassed : ((entriesOfAll (some index) (index + 1) e.children).drop k) = [] := by
          rw [List.drop_eq_nil_iff, length_entriesOfAll]
          omega
        rw [hposition] at hprefix
        rwa [hpassed, List.nil_append]

/-- What is inside the element at a position follows at once. -/
theorem entriesOfAll_prefix_drop (hx : (entriesOfAll none 0 es)[i]? = some x) :
    entriesOfAll (some i) (i + 1) x.element.children <+: (entriesOfAll none 0 es).drop (i + 1) := by
  have hprefix := entries_prefix_drop hx
  obtain ⟨hlt, hget⟩ := List.getElem?_eq_some_iff.1 hx
  rw [Nat.zero_add, entries_eq, List.drop_eq_getElem_cons hlt] at hprefix
  exact (List.cons_prefix_cons.1 hprefix).2

/-- The positions of the children of an entry begin after its own one. -/
theorem children_eq_positions (hx : (entriesOfAll none 0 es)[i]? = some x) :
    x.children = positions (i + 1) x.element.children := by
  have hprefix := entries_prefix_drop hx
  obtain ⟨hlt, hget⟩ := List.getElem?_eq_some_iff.1 hx
  rw [Nat.zero_add, entries_eq, List.drop_eq_getElem_cons hlt, hget] at hprefix
  have hhead := (List.cons_prefix_cons.1 hprefix).1
  rw [← hhead]

/-- The entries of an element end with those of its parent or before. -/
theorem add_size_le_of_mem_zipIdx (hx : (x, i) ∈ (entriesOfAll parent index es).zipIdx index) :
    (x.parent = parent ∧ i + x.element.size ≤ index + (walkAll es).length) ∨
      ∃ p y, x.parent = some p ∧ (y, p) ∈ (entriesOfAll parent index es).zipIdx index ∧ p < i ∧
        i + x.element.size ≤ p + y.element.size := by
  induction es using forest_induction generalizing parent index with
  | nil => simp at hx
  | cons e es ihc ihs =>
    rw [entries_zipIdx_cons] at hx ⊢
    rw [walkAll_cons, List.length_cons, List.length_append]
    -- The entry is the first one, lies inside it or comes after it.
    rcases List.mem_cons.1 hx with hx | hx
    · cases hx
      have hsize := size_eq e
      exact .inl ⟨rfl, by simp only; omega⟩
    rcases List.mem_append.1 hx with hx | hx
    · right
      rcases ihc hx with ⟨hparent, hle⟩ | ⟨p, y, hparent, hy, hlt, hle⟩
      · have hlt := List.le_snd_of_mem_zipIdx hx
        have hsize := size_eq e
        exact ⟨index, _, hparent, List.mem_cons_self, by simp only at hlt; omega,
          by simp only; omega⟩
      · exact ⟨p, y, hparent, List.mem_cons_of_mem _ (List.mem_append_left _ hy), hlt, hle⟩
    · rcases ihs hx with ⟨hparent, hle⟩ | ⟨p, y, hparent, hy, hlt, hle⟩
      · have hsize := size_eq e
        exact .inl ⟨hparent, by omega⟩
      · exact .inr ⟨p, y, hparent, List.mem_cons_of_mem _ (List.mem_append_right _ hy), hlt, hle⟩

/-- Where the entries of several elements stand in a list, the entry of the first one, those inside
it and those of the others stand one after the other. -/
theorem parts_of_prefix {all : List Entry} {e : Element}
    (h : entriesOfAll parent index (e :: es) <+: all.drop index) :
    all[index]? = some ⟨e, parent, positions (index + 1) e.children⟩ ∧
      entriesOfAll (some index) (index + 1) e.children <+: all.drop (index + 1) ∧
      entriesOfAll parent (index + e.size) es <+: all.drop (index + e.size) := by
  rw [entriesOfAll_cons] at h
  obtain ⟨rest, hrest⟩ := h
  have hbelow : entriesOfAll (some index) (index + 1) e.children ++
      (entriesOfAll parent (index + e.size) es ++ rest) = all.drop (index + 1) := by
    rw [← List.drop_drop, ← hrest, ← List.append_assoc]
    rfl
  refine ⟨?_, ⟨_, hbelow⟩, ⟨rest, ?_⟩⟩
  · rw [← Nat.add_zero index, ← List.getElem?_drop, ← hrest]
    rfl
  · have hposition : index + e.size =
        index + 1 + (entriesOfAll (some index) (index + 1) e.children).length := by
      rw [length_entriesOfAll, size_eq]
      omega
    rw [hposition] at hbelow ⊢
    rw [← List.drop_drop, ← hbelow, List.drop_left]

/-- Entries that stand together below a position lead to it. -/
theorem descends_of_prefix {all : List Entry}
    (h : entriesOfAll (some i) index es <+: all.drop index)
    (hj : j < (walkAll es).length) : Descends all (index + j) i := by
  induction es using forest_induction generalizing i index j with
  | nil => simp at hj
  | cons e es ihc ihs =>
    obtain ⟨hhead, hchildren, hrest⟩ := parts_of_prefix h
    have hfirst : Descends all index i := .single ⟨_, hhead, rfl⟩
    have hsize := size_eq e
    rw [walkAll_cons, List.length_cons, List.length_append] at hj
    rcases Nat.eq_zero_or_pos j with rfl | hpos
    · exact hfirst
    by_cases hinside : j < e.size
    · -- The entry is inside the first element, which leads to the position.
      have hdescends := ihc hchildren (j := j - 1) (by omega)
      rw [show index + 1 + (j - 1) = index + j by omega] at hdescends
      exact hdescends.trans hfirst
    · have hdescends := ihs hrest (j := j - e.size) (by omega)
      rwa [show index + e.size + (j - e.size) = index + j by omega] at hdescends

/-- An entry is inside another one exactly if its position is one of those that follow, as many as
the other one has elements. -/
theorem descends_iff (hy : (entriesOfAll none 0 es)[i]? = some y) :
    Descends (entriesOfAll none 0 es) j i ↔ i < j ∧ j < i + y.element.size := by
  constructor
  · intro h
    -- Along the way the entries of each one stand among those of the next.
    have hrange : i < j ∧ ∀ x : Entry, (entriesOfAll none 0 es)[j]? = some x →
        j + x.element.size ≤ i + y.element.size := by
      induction h using Relation.TransGen.head_induction_on with
      | single hstep =>
        obtain ⟨x, hx, hparent⟩ := hstep
        rcases add_size_le_of_mem_zipIdx (List.mk_mem_zipIdx_iff_getElem?.2 hx) with
          ⟨hnone, -⟩ | ⟨p, z, hp, hz, hlt, hle⟩
        · simp [hnone] at hparent
        · obtain rfl : p = i := by simpa [hp] using hparent
          obtain rfl : z = y := by simpa [hy] using (List.mk_mem_zipIdx_iff_getElem?.1 hz).symm
          refine ⟨hlt, fun x' hx' => ?_⟩
          obtain rfl : x = x' := by simpa [hx] using hx'
          exact hle
      | head hstep _ ih =>
        obtain ⟨x, hx, hparent⟩ := hstep
        rcases add_size_le_of_mem_zipIdx (List.mk_mem_zipIdx_iff_getElem?.2 hx) with
          ⟨hnone, -⟩ | ⟨p, z, hp, hz, hlt, hle⟩
        · simp [hnone] at hparent
        · obtain rfl : p = _ := by simpa [hp] using hparent
          have hbound := ih.2 z (List.mk_mem_zipIdx_iff_getElem?.1 hz)
          refine ⟨Nat.lt_trans ih.1 hlt, fun x' hx' => ?_⟩
          obtain rfl : x = x' := by simpa [hx] using hx'
          omega
    have hthere : ∃ x : Entry, (entriesOfAll none 0 es)[j]? = some x := by
      cases h using Relation.TransGen.head_induction_on with
      | single hstep | head hstep =>
        obtain ⟨x, hx, -⟩ := hstep
        exact ⟨x, hx⟩
    obtain ⟨x, hx⟩ := hthere
    have hle := hrange.2 x hx
    have hsize := size_eq x.element
    omega
  · rintro ⟨hlt, hle⟩
    rw [size_eq] at hle
    have hdescends := descends_of_prefix (entriesOfAll_prefix_drop hy) (j := j - (i + 1)) (by omega)
    rwa [show i + 1 + (j - (i + 1)) = j by omega] at hdescends

/-- The elements of the entries inside an entry are those inside its element. -/
theorem exists_descends_iff {f : Element} (hy : (entriesOfAll none 0 es)[i]? = some y) :
    (∃ j x, Descends (entriesOfAll none 0 es) j i ∧ (entriesOfAll none 0 es)[j]? = some x ∧
      x.element = f) ↔ f ∈ walkAll y.element.children := by
  have hprefix := (entriesOfAll_prefix_drop hy).map Entry.element
  rw [map_element_entriesOfAll] at hprefix
  -- The entries below the one at `i` follow it at once, so positions and elements correspond.
  constructor
  · rintro ⟨j, x, hdescends, hx, rfl⟩
    obtain ⟨hlt, hle⟩ := (descends_iff hy).1 hdescends
    have hj : j - (i + 1) < (walkAll y.element.children).length := by
      rw [size_eq] at hle
      omega
    have hget := hprefix.getElem hj
    obtain ⟨hlt', rfl⟩ := List.getElem?_eq_some_iff.1 hx
    have hposition : i + 1 + (j - (i + 1)) = j := by omega
    simp only [List.getElem_map, List.getElem_drop, hposition] at hget
    rw [← hget]
    exact List.getElem_mem hj
  · intro hf
    obtain ⟨k, hk, rfl⟩ := List.getElem_of_mem hf
    have hget := hprefix.getElem hk
    have hlen := hprefix.length_le
    rw [List.length_map, List.length_drop] at hlen
    simp only [List.getElem_map, List.getElem_drop] at hget
    refine ⟨i + 1 + k, _, (descends_iff hy).2 ⟨by omega, ?_⟩,
      List.getElem?_eq_getElem (by omega), hget.symm⟩
    rw [size_eq]
    omega

end Mockup.Jsx.Element
