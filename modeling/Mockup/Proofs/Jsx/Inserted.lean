import Mockup.Proofs.Jsx.Carried
import Mockup.Proofs.Jsx.Subtree

/-!
# Entries after an insertion

An element is put after another one. In the list of all entries, those of the new element stand
right after those of the other one and what is inside it. The entries before them keep their
positions, those after them go up, and relations go along: a parent is named by its new position,
and where the other element is a child, the new one is the next child.

* `bump k n j` — where the position `j` goes when `n` entries are put at `k`.
* `spread i k n j` — the children that stand for the child `j` when they are put after `i`.

## Main results

* `Kept.inserted`: the entries of elements that are kept with one put among them.
-/

namespace Mockup.Jsx

namespace Element

/-- Where a position goes when `n` entries are put at position `k`. -/
def bump (k n j : Nat) : Nat :=
  if j < k then j else j + n

/-- The positions that stand for the child at `j` when an element of `n` entries is put after the
one at `i`, at position `k`. -/
def spread (i k n j : Nat) : List Nat :=
  if j = i then [i, k] else [bump k n j]

variable {i k n j : Nat}

theorem bump_of_lt (h : j < k) : bump k n j = j :=
  if_pos h

theorem bump_of_le (h : k ≤ j) : bump k n j = j + n :=
  if_neg (Nat.not_lt.2 h)

theorem spread_of_ne (h : j ≠ i) : spread i k n j = [bump k n j] :=
  if_neg h

/-- Positions from `index` on go to those from `index'` on, and none is that of the element after
which another one is put. -/
def Steady (i k n index index' length : Nat) : Prop :=
  ∀ j < length, index + j ≠ i ∧ bump k n (index + j) = index' + j

theorem Steady.drop {index index' first length : Nat}
    (h : Steady i k n index index' (first + length)) :
    Steady i k n (index + first) (index' + first) length := by
  intro j hj
  rw [Nat.add_assoc, Nat.add_assoc]
  exact h (first + j) (Nat.add_lt_add_left hj first)

theorem Steady.take {index index' first length : Nat}
    (h : Steady i k n index index' (first + length)) : Steady i k n index index' first :=
  fun j hj => h j (Nat.lt_add_right length hj)

/-- Positions that are before an inserted element stay. -/
theorem steady_before {index length : Nat} (hne : i < index ∨ index + length ≤ i)
    (hle : index + length ≤ k) : Steady i k n index index length := by
  intro j hj
  exact ⟨by omega, bump_of_lt (by omega)⟩

/-- Positions that are after an inserted element go up. -/
theorem steady_after {index length : Nat} (hlt : i < k) (hle : k ≤ index) :
    Steady i k n index (index + n) length := by
  intro j hj
  refine ⟨by omega, ?_⟩
  rw [bump_of_le (by omega), Nat.add_right_comm]

end Element

open Element (bump spread Steady)

section Inserted

variable {d : Splice} {source : List Char} {lo hi i k n index index' : Nat} {parent : Option Nat}
  {es es' : List Element} {r : Element}

/-- An entry is kept and named by new positions. -/
structure EntryShifted (d : Splice) (i k n : Nat) (x x' : Element.Entry) : Prop where
  element : ElementKept d x.element x'.element
  parent : x'.parent = x.parent.map (bump k n)
  children : x'.children = x.children.flatMap (spread i k n)

/-- Where nothing is put among elements, they are as many as before. -/
theorem Kept.length_of_far (h : Kept d es es') (hkeep : ∀ e, d.drops e = false)
    (hfar : ∀ f ∈ Element.walkAll es, f.stop ≠ d.start) :
    (Element.walkAll es').length = (Element.walkAll es).length := by
  induction h with
  | nil => rfl
  | @keep e e' es es' _ _ _ _ ihi ihr =>
    simp only [Element.walkAll_cons, List.mem_cons, List.mem_append] at hfar
    have hinside := ihi fun f hf => hfar f (.inr (.inl hf))
    have hrest := ihr fun f hf => hfar f (.inr (.inr hf))
    rw [Splice.insertedAfter_of_ne (hfar e (.inl rfl)), List.nil_append]
    simp [hinside, hrest]
  | drop dropped _ _ => exact absurd dropped (by simp [hkeep])

/-- Where nothing is put among elements, each entry goes where its position goes. -/
theorem Kept.entries_of_steady (h : Kept d es es') (hkeep : ∀ e, d.drops e = false)
    (hfar : ∀ f ∈ Element.walkAll es, f.stop ≠ d.start)
    (steady : Steady i k n index index' (Element.walkAll es).length) (parent : Option Nat) :
    Element.positions index' es' = (Element.positions index es).flatMap (spread i k n) ∧
      List.Forall₂ (EntryShifted d i k n) (Element.entriesOfAll parent index es)
        (Element.entriesOfAll (parent.map (bump k n)) index' es') := by
  induction h generalizing parent index index' with
  | nil => exact ⟨rfl, by simp⟩
  | @keep e e' es es' _ element inside _ ihi ihr =>
    simp only [Element.walkAll_cons, List.mem_cons, List.mem_append] at hfar
    have hinside := fun f hf => hfar f (.inr (.inl hf))
    have hsize : e'.size = e.size := by
      rw [Element.size_eq, Element.size_eq, inside.length_of_far hkeep hinside]
    -- The positions of the first element, of those inside it and of those after it make up the
    -- stretch.
    have hlength : (Element.walkAll (e :: es)).length =
        1 + ((Element.walkAll e.children).length + (Element.walkAll es).length) := by
      rw [Element.walkAll_cons, List.length_cons, List.length_append, Nat.add_comm]
    have hlength' : (Element.walkAll (e :: es)).length = e.size + (Element.walkAll es).length := by
      rw [hlength, Element.size_eq, ← Nat.add_assoc, Nat.add_comm 1]
    obtain ⟨hne, hbump⟩ := steady 0 (by rw [hlength]; omega)
    rw [Nat.add_zero] at hne hbump
    rw [Nat.add_zero] at hbump
    obtain ⟨hpositions, hentries⟩ := ihi hinside (hlength ▸ steady).drop.take (some index)
    obtain ⟨hpositions', hentries'⟩ := ihr (fun f hf => hfar f (.inr (.inr hf)))
      (hlength' ▸ steady).drop parent
    rw [Splice.insertedAfter_of_ne (hfar e (.inl rfl)), List.nil_append]
    constructor
    · rw [Element.positions, Element.positions, List.flatMap_cons, hsize, hpositions',
        Element.spread_of_ne hne, hbump]
      rfl
    · rw [Element.entriesOfAll_cons, Element.entriesOfAll_cons, hsize]
      refine .cons ⟨element, rfl, hpositions⟩ (List.rel_append ?_ hentries')
      rwa [Option.map_some, hbump] at hentries
  | drop dropped _ _ => exact absurd dropped (by simp [hkeep])

/-- The entries of `es'` from position `index` on are those of `es`, with those of `r` put at
position `k`, below `above`. -/
structure ListedWith (d : Splice) (r : Element) (i k : Nat) (parent above : Option Nat)
    (index : Nat) (es es' : List Element) : Prop where
  length_eq : (Element.walkAll es').length = (Element.walkAll es).length + r.size
  positions_eq :
    Element.positions index es' = (Element.positions index es).flatMap (spread i k r.size)
  entries_eq : ∃ front back front' back', Element.entriesOfAll parent index es = front ++ back ∧
    index + front.length = k ∧
    Element.entriesOfAll parent index es' = front' ++ Element.entriesOfAll above k [r] ++ back' ∧
    List.Forall₂ (EntryShifted d i k r.size) front front' ∧
    List.Forall₂ (EntryShifted d i k r.size) back back'

section Cons

variable {e e' : Element} {above : Option Nat}

/-- The new element is put after the first one. -/
theorem ListedWith.here (element : ElementKept d e e') (inside : Kept d e.children e'.children)
    (rest : Kept d es es') (hkeep : ∀ e, d.drops e = false)
    (hinside : ∀ f ∈ Element.walkAll e.children, f.stop ≠ d.start)
    (hrest : ∀ f ∈ Element.walkAll es, f.stop ≠ d.start)
    (hsame : parent.map (bump (index + e.size) r.size) = parent) :
    ListedWith d r index (index + e.size) parent parent index (e :: es) (e' :: r :: es') := by
  have hsize := Element.size_eq e
  have hsize' : e'.size = e.size := by
    rw [Element.size_eq, Element.size_eq, inside.length_of_far hkeep hinside]
  -- What is inside the first element keeps its positions, what follows it goes up.
  have before : Steady index (index + e.size) r.size (index + 1) (index + 1)
      (Element.walkAll e.children).length :=
    Element.steady_before (.inl (Nat.lt_succ_self _)) (by omega)
  have after : Steady index (index + e.size) r.size (index + e.size) (index + e.size + r.size)
      (Element.walkAll es).length :=
    Element.steady_after (by omega) (Nat.le_refl _)
  obtain ⟨hpositions, hentries⟩ := inside.entries_of_steady hkeep hinside before (some index)
  obtain ⟨hpositions', hentries'⟩ := rest.entries_of_steady hkeep hrest after parent
  have hfirst : bump (index + e.size) r.size index = index := Element.bump_of_lt (by omega)
  rw [Option.map_some, hfirst] at hentries
  rw [hsame] at hentries'
  refine ⟨?_, ?_, ⟨⟨e, parent, Element.positions (index + 1) e.children⟩ ::
    Element.entriesOfAll (some index) (index + 1) e.children, _,
    ⟨e', parent, Element.positions (index + 1) e'.children⟩ ::
      Element.entriesOfAll (some index) (index + 1) e'.children, _, Element.entriesOfAll_cons ..,
    ?_, ?_, .cons ⟨element, hsame.symm, hpositions⟩ hentries, hentries'⟩⟩
  · have hinside' := inside.length_of_far hkeep hinside
    have hrest' := rest.length_of_far hkeep hrest
    rw [Element.size_eq r]
    simp only [Element.walkAll_cons, List.length_cons, List.length_append, hinside', hrest']
    omega
  · rw [Element.positions, Element.positions, Element.positions, List.flatMap_cons, hsize',
      hpositions', spread, if_pos rfl]
    rfl
  · rw [List.length_cons, Element.length_entriesOfAll, hsize]
  · rw [Element.entriesOfAll_cons, hsize', Element.entriesOfAll_cons parent _ r,
      Element.entriesOfAll_cons parent _ r, Element.entriesOfAll_nil]
    simp

/-- The new element is put inside the first one. -/
theorem ListedWith.inside (element : ElementKept d e e') (rest : Kept d es es')
    (h : ListedWith d r i k (some index) above (index + 1) e.children e'.children)
    (hkeep : ∀ e, d.drops e = false) (hrest : ∀ f ∈ Element.walkAll es, f.stop ≠ d.start)
    (hlt : index < i) (hle : i < k) (hend : k ≤ index + e.size)
    (hsame : parent.map (bump k r.size) = parent) :
    ListedWith d r i k parent above index (e :: es) (e' :: es') := by
  have hsize' : e'.size = e.size + r.size := by
    rw [Element.size_eq, Element.size_eq, h.length_eq, Nat.add_right_comm]
  -- What comes after the element lies behind the new entries, so it moves as a whole.
  have after : Steady i k r.size (index + e.size) (index + e.size + r.size)
      (Element.walkAll es).length := Element.steady_after hle hend
  obtain ⟨hpositions, hentries⟩ := rest.entries_of_steady hkeep hrest after parent
  have hfirst : bump k r.size index = index := Element.bump_of_lt (by omega)
  rw [hsame] at hentries
  obtain ⟨front, back, front', back', hold, hlength, hnew, hfront, hback⟩ := h.entries_eq
  refine ⟨?_, ?_, ⟨⟨e, parent, Element.positions (index + 1) e.children⟩ :: front,
    back ++ Element.entriesOfAll parent (index + e.size) es,
    ⟨e', parent, Element.positions (index + 1) e'.children⟩ :: front',
    back' ++ Element.entriesOfAll parent (index + e.size + r.size) es', ?_, ?_, ?_,
    .cons ⟨element, hsame.symm, h.positions_eq⟩ hfront, List.rel_append hback hentries⟩⟩
  · have hrest' := rest.length_of_far hkeep hrest
    simp only [Element.walkAll_cons, List.length_cons, List.length_append, h.length_eq, hrest']
    omega
  · rw [Element.positions, Element.positions, List.flatMap_cons, hsize', ← Nat.add_assoc,
      hpositions, Element.spread_of_ne (Nat.ne_of_lt hlt), hfirst]
    rfl
  · rw [Element.entriesOfAll_cons, hold]
    simp
  · rw [List.length_cons]
    omega
  · rw [Element.entriesOfAll_cons, hnew, hsize', ← Nat.add_assoc]
    simp

/-- The new element is put among those after the first one. -/
theorem ListedWith.after (element : ElementKept d e e') (inside : Kept d e.children e'.children)
    (h : ListedWith d r i k parent above (index + e.size) es es')
    (hkeep : ∀ e, d.drops e = false) (hinside : ∀ f ∈ Element.walkAll e.children, f.stop ≠ d.start)
    (hlt : index + e.size ≤ i) (hle : i < k) (hsame : parent.map (bump k r.size) = parent) :
    ListedWith d r i k parent above index (e :: es) (e' :: es') := by
  have hsize := Element.size_eq e
  have hinside' := inside.length_of_far hkeep hinside
  have hsize' : e'.size = e.size := by
    rw [Element.size_eq, Element.size_eq, hinside']
  -- What is inside the element lies before the new entries, so it stays where it is.
  have before : Steady i k r.size (index + 1) (index + 1) (Element.walkAll e.children).length :=
    Element.steady_before (.inr (by omega)) (by omega)
  obtain ⟨hpositions, hentries⟩ := inside.entries_of_steady hkeep hinside before (some index)
  have hfirst : bump k r.size index = index := Element.bump_of_lt (by omega)
  rw [Option.map_some, hfirst] at hentries
  obtain ⟨front, back, front', back', hold, hlength, hnew, hfront, hback⟩ := h.entries_eq
  refine ⟨?_, ?_, ⟨⟨e, parent, Element.positions (index + 1) e.children⟩ ::
      (Element.entriesOfAll (some index) (index + 1) e.children ++ front), back,
    ⟨e', parent, Element.positions (index + 1) e'.children⟩ ::
      (Element.entriesOfAll (some index) (index + 1) e'.children ++ front'), back', ?_, ?_, ?_,
    .cons ⟨element, hsame.symm, hpositions⟩ (List.rel_append hentries hfront), hback⟩⟩
  · simp only [Element.walkAll_cons, List.length_cons, List.length_append, h.length_eq, hinside']
    omega
  · rw [Element.positions, Element.positions, List.flatMap_cons, hsize', h.positions_eq,
      Element.spread_of_ne (by omega), hfirst]
    rfl
  · rw [Element.entriesOfAll_cons, hold]
    simp
  · rw [List.length_cons, List.length_append, Element.length_entriesOfAll]
    omega
  · rw [Element.entriesOfAll_cons, hsize', hnew]
    simp

end Cons

/-- An element is put after the one at position `i`: its entries stand after those of that one and
what is inside it, and the others go where their positions go. -/
theorem Kept.inserted (h : Kept d es es') (hkeep : ∀ e, d.drops e = false)
    (forest : Forest source lo es hi) (hone : d.inserted = [r]) {m : Nat} {x : Element.Entry}
    (hx : (Element.entriesOfAll parent index es)[m]? = some x) (hstop : x.element.stop = d.start)
    (hparent : ∀ p, parent = some p → p < index) :
    ListedWith d r (index + m) (index + m + x.element.size) parent x.parent index es es' := by
  induction h generalizing parent index m lo hi with
  | nil => simp at hx
  | drop dropped _ _ => exact absurd dropped (by simp [hkeep])
  | @keep e e' es es' _ element inside rest ihi ihr =>
    have hsize := Element.size_eq e
    have hpos : 0 < x.element.size := by
      rw [Element.size_eq]
      exact Nat.succ_pos _
    have hlt := forest.1.2.1
    -- The parent stands before the element, so it keeps its position.
    have hsame : parent.map (bump (index + m + x.element.size) r.size) = parent := by
      cases parent with
      | none => rfl
      | some p =>
        have hp := hparent p rfl
        rw [Option.map_some, Element.bump_of_lt (by omega)]
    rw [Element.entriesOfAll_cons] at hx
    cases m with
    | zero =>
      obtain rfl := Option.some_inj.1 hx
      change e.stop = d.start at hstop
      have hafter : d.insertedAfter e.stop = [r] := by
        rw [Splice.insertedAfter, if_pos hstop, hone]
      rw [hafter]
      refine .here element inside rest hkeep (fun f hf => ?_) (fun f hf => ?_) hsame
      · have hbounds := forest.children.bounds hf
        omega
      · have hbounds := forest.tail.bounds hf
        omega
    | succ m =>
      rw [List.getElem?_cons_succ, List.getElem?_append, Element.length_entriesOfAll] at hx
      split at hx
      · have hbounds := forest.children.entry_bounds (List.mem_of_getElem? hx)
        rw [Splice.insertedAfter_of_ne (show e.stop ≠ d.start by omega), List.nil_append]
        have hbelow := ihi forest.children hx fun p hp => by cases hp; exact Nat.lt_succ_self _
        rw [Nat.add_right_comm, Nat.add_assoc] at hbelow
        refine .inside element rest hbelow hkeep (fun f hf => ?_) (by omega) (by omega) ?_ hsame
        · have hbounds' := forest.tail.bounds hf
          omega
        · obtain ⟨front, back, front', back', hold, hlength, -⟩ := hbelow.entries_eq
          have hall := congrArg List.length hold
          rw [Element.length_entriesOfAll, List.length_append] at hall
          omega
      · next hge =>
        have hbounds := forest.tail.entry_bounds (List.mem_of_getElem? hx)
        rw [Splice.insertedAfter_of_ne (show e.stop ≠ d.start by omega), List.nil_append]
        have hothers := ihr forest.tail hx fun p hp => Nat.lt_add_right _ (hparent p hp)
        have hposition : index + e.size + (m - (Element.walkAll e.children).length) =
            index + (m + 1) := by
          omega
        rw [hposition] at hothers
        refine .after element inside hothers hkeep (fun f hf => ?_) (by omega) (by omega) hsame
        have hbounds' := forest.children.bounds hf
        omega

end Inserted

end Mockup.Jsx
