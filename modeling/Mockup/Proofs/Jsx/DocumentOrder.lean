import Mockup.Proofs.Jsx.Nesting

/-!
# Document order

The entries of nested elements are in document order, and the relations between their positions
are those between the elements. Together with the places of a scan this gives the shape of what a
scan records: a forest that is well nested over the text.

## Main results

* `Element.parent_of_mem_zipIdx`, `Element.mem_zipIdx_of_mem_children`: the parent of an entry and
  the children of that parent say the same.
* `Forest.wellNested`: the entries of a scanned text are well nested.
-/

namespace Mockup.Jsx

open Text (HasAt IsBoundary InOrder)

namespace Element

variable {parent : Option Nat} {index i p : Nat} {es : List Element} {x y : Entry}

/-! ### Positions -/

/-- Positions begin at the first one and increase. -/
theorem positions_increasing (index : Nat) (es : List Element) :
    (positions index es).Pairwise (· < ·) ∧ ∀ i ∈ positions index es, index ≤ i := by
  induction es generalizing index with
  | nil => simp [positions]
  | cons e es ih =>
    obtain ⟨hsorted, hle⟩ := ih (index + e.size)
    have hpos : 0 < e.size := by simp [size_eq]
    refine ⟨.cons (fun i hi => ?_) hsorted, fun i hi => ?_⟩
    · have := hle i hi
      omega
    · rcases List.mem_cons.1 hi with rfl | hi
      · exact Nat.le_refl _
      · have := hle i hi
        omega

theorem entries_zipIdx_cons (e : Element) (es : List Element) :
    (entriesOfAll parent index (e :: es)).zipIdx index =
      (⟨e, parent, positions (index + 1) e.children⟩, index) ::
        ((entriesOfAll (some index) (index + 1) e.children).zipIdx (index + 1) ++
          (entriesOfAll parent (index + e.size) es).zipIdx (index + e.size)) := by
  rw [entriesOfAll_cons, List.zipIdx_cons, List.zipIdx_append, length_entriesOfAll, size_eq]
  simp only [Nat.add_assoc, Nat.add_comm 1]

/-- The entry at a position of several elements has the parent that they all have. -/
theorem exists_mem_zipIdx_of_mem_positions (h : i ∈ positions index es) :
    ∃ x, (x, i) ∈ (entriesOfAll parent index es).zipIdx index ∧ x.parent = parent ∧
      x.element ∈ es := by
  induction es generalizing index with
  | nil => simp [positions] at h
  | cons e es ih =>
    rw [entries_zipIdx_cons]
    rcases List.mem_cons.1 h with rfl | h
    · exact ⟨_, List.mem_cons_self, rfl, List.mem_cons_self⟩
    · obtain ⟨x, hx, hparent, hmem⟩ := ih h
      exact ⟨x, List.mem_cons_of_mem _ (List.mem_append_right _ hx), hparent,
        List.mem_cons_of_mem _ hmem⟩

/-- The parent of an entry is the common one, if the entry is that of an outermost element, or an
entry before it that has the position among its children. -/
theorem parent_of_mem_zipIdx (hx : (x, i) ∈ (entriesOfAll parent index es).zipIdx index) :
    (x.parent = parent ∧ x.element ∈ es ∧ i ∈ positions index es) ∨
      ∃ p y, x.parent = some p ∧ (y, p) ∈ (entriesOfAll parent index es).zipIdx index ∧ p < i ∧
        x.element ∈ y.element.children ∧ i ∈ y.children := by
  induction es using forest_induction generalizing parent index with
  | nil => simp at hx
  | cons e es ihc ihs =>
    rw [entries_zipIdx_cons] at hx ⊢
    -- The entry is the first one, one inside it, or one after it.
    rcases List.mem_cons.1 hx with hx | hx
    · cases hx
      exact .inl ⟨rfl, List.mem_cons_self, List.mem_cons_self⟩
    rcases List.mem_append.1 hx with hx | hx
    · right
      rcases ihc hx with ⟨hparent, hmem, hi⟩ | ⟨p, y, hparent, hy, hlt, hmem, hi⟩
      · have := (positions_increasing (index + 1) e.children).2 i hi
        exact ⟨index, _, hparent, List.mem_cons_self, by omega, hmem, hi⟩
      · exact ⟨p, y, hparent, List.mem_cons_of_mem _ (List.mem_append_left _ hy), hlt, hmem, hi⟩
    · rcases ihs hx with ⟨hparent, hmem, hi⟩ | ⟨p, y, hparent, hy, hlt, hmem, hi⟩
      · exact .inl ⟨hparent, List.mem_cons_of_mem _ hmem, List.mem_cons_of_mem _ hi⟩
      · refine .inr ⟨p, y, hparent, ?_, hlt, hmem, hi⟩
        exact List.mem_cons_of_mem _ (List.mem_append_right _ hy)

/-- The children of an entry are positions of entries that have it as their parent. -/
theorem mem_zipIdx_of_mem_children (hy : (y, p) ∈ (entriesOfAll parent index es).zipIdx index)
    (hi : i ∈ y.children) :
    ∃ x, (x, i) ∈ (entriesOfAll parent index es).zipIdx index ∧ x.parent = some p := by
  induction es using forest_induction generalizing parent index with
  | nil => simp at hy
  | cons e es ihc ihs =>
    rw [entries_zipIdx_cons] at hy ⊢
    rcases List.mem_cons.1 hy with hy | hy
    · cases hy
      obtain ⟨x, hx, hparent, -⟩ := exists_mem_zipIdx_of_mem_positions hi
      exact ⟨x, List.mem_cons_of_mem _ (List.mem_append_left _ hx), hparent⟩
    rcases List.mem_append.1 hy with hy | hy
    · obtain ⟨x, hx, hparent⟩ := ihc hy
      exact ⟨x, List.mem_cons_of_mem _ (List.mem_append_left _ hx), hparent⟩
    · obtain ⟨x, hx, hparent⟩ := ihs hy
      exact ⟨x, List.mem_cons_of_mem _ (List.mem_append_right _ hx), hparent⟩

/-- What is inside an element has a parent at the position of the element or after it. -/
theorem le_parent_of_mem (hx : x ∈ entriesOfAll (some p) (p + 1) es) :
    ∃ q, x.parent = some q ∧ p ≤ q := by
  obtain ⟨k, hk⟩ := List.getElem?_of_mem hx
  have hz : (x, p + 1 + k) ∈ (entriesOfAll (some p) (p + 1) es).zipIdx (p + 1) :=
    List.mk_add_mem_zipIdx_iff_getElem?.2 hk
  rcases parent_of_mem_zipIdx hz with ⟨hparent, -⟩ | ⟨q, y, hparent, hy, -⟩
  · exact ⟨p, hparent, Nat.le_refl p⟩
  · have := List.le_snd_of_mem_zipIdx hy
    exact ⟨q, hparent, by simp only at this; omega⟩

/-- The children of every entry increase. -/
theorem children_increasing (hx : x ∈ entriesOfAll parent index es) :
    x.children.Pairwise (· < ·) := by
  induction es using forest_induction generalizing parent index with
  | nil => simp at hx
  | cons e es ihc ihs =>
    rw [entriesOfAll_cons] at hx
    rcases List.mem_cons.1 hx with rfl | hx
    · exact (positions_increasing _ _).1
    rcases List.mem_append.1 hx with hx | hx
    · exact ihc hx
    · exact ihs hx

end Element

/-! ### Places -/

section Places

variable {source : List Char} {lo hi : Nat} {e : Element} {es : List Element}

/-- What is inside the first of several elements lies between its two ends. -/
theorem Forest.children (h : Forest source lo (e :: es) hi) :
    Forest source (e.start + 1) e.children (e.stop - 1) := by
  have hmem : ∀ f ∈ Element.walkAll (e :: es), f.Sound source := h.2
  simp only [Element.walkAll_cons, List.mem_cons, List.mem_append] at hmem
  exact ⟨(hmem e (.inl rfl)).children, fun f hf => hmem f (.inr (.inl hf))⟩

/-- The other ones lie after the first of several elements. -/
theorem Forest.tail (h : Forest source lo (e :: es) hi) : Forest source e.stop es hi := by
  refine ⟨h.1.2.2, fun f hf => h.2 f ?_⟩
  simp [hf]

/-- Every element that a walk meets lies between the limits. -/
theorem Forest.bounds (h : Forest source lo es hi) {f : Element} (hf : f ∈ Element.walkAll es) :
    lo ≤ f.start ∧ f.start < f.stop ∧ f.stop ≤ hi := by
  induction es using Element.forest_induction generalizing lo hi with
  | nil => simp at hf
  | cons e es ihc ihs =>
    obtain ⟨hstart, hlt, htail⟩ := h.1
    have hle := htail.le
    rw [Element.walkAll_cons, List.mem_cons, List.mem_append] at hf
    rcases hf with rfl | hf | hf
    · exact ⟨hstart, hlt, hle⟩
    · have := ihc h.children hf
      omega
    · have := ihs h.tail hf
      omega

/-- No element begins before the first one. -/
theorem Forest.head_le (h : Forest source lo (e :: es) hi) {f : Element}
    (hf : f ∈ Element.walkAll (e :: es)) : e.start ≤ f.start := by
  have forest : Forest source e.start (e :: es) hi := ⟨⟨Nat.le_refl _, h.1.2⟩, h.2⟩
  exact (forest.bounds hf).1

/-- Elements begin in document order. -/
theorem Forest.pairwise_start (h : Forest source lo es hi) :
    (Element.walkAll es).Pairwise fun e f => e.start < f.start := by
  induction es using Element.forest_induction generalizing lo hi with
  | nil => simp
  | cons e es ihc ihs =>
    have hlt : e.start < e.stop := h.1.2.1
    rw [Element.walkAll_cons, List.pairwise_cons, List.pairwise_append]
    -- What is inside an element begins after it, and what follows begins after it has ended.
    refine ⟨fun f hf => ?_, ihc h.children, ihs h.tail, fun f hf g hg => ?_⟩
    · rcases List.mem_append.1 hf with hf | hf
      · have := h.children.bounds hf
        omega
      · have := h.tail.bounds hf
        omega
    · have := h.children.bounds hf
      have := h.tail.bounds hg
      omega

/-- Every entry lies between the limits. -/
theorem Forest.entry_bounds (h : Forest source lo es hi) {parent : Option Nat} {index : Nat}
    {x : Element.Entry} (hx : x ∈ Element.entriesOfAll parent index es) :
    lo ≤ x.element.start ∧ x.element.start < x.element.stop ∧ x.element.stop ≤ hi := by
  refine h.bounds ?_
  rw [← Element.map_element_entriesOfAll parent index es]
  exact List.mem_map_of_mem hx

/-- Entries with one parent lie side by side. -/
theorem Forest.pairwise_siblings (h : Forest source lo es hi) {parent : Option Nat} {index : Nat}
    (hparent : ∀ p, parent = some p → p < index) :
    (Element.entriesOfAll parent index es).Pairwise fun x y =>
      x.parent = y.parent → x.element.stop ≤ y.element.start := by
  induction es using Element.forest_induction generalizing lo hi parent index with
  | nil => simp
  | cons e es ihc ihs =>
    rw [Element.entriesOfAll_cons, List.pairwise_cons, List.pairwise_append]
    refine ⟨fun x hx hsame => ?_, ihc h.children (by simp), ihs h.tail fun p hp => ?_,
      fun x hx y hy _ => ?_⟩
    · simp only at hsame
      rcases List.mem_append.1 hx with hx | hx
      -- An entry inside the first element has another parent than that element.
      · obtain ⟨q, hq, hle⟩ := Element.le_parent_of_mem hx
        have := hparent q (hsame.trans hq)
        omega
      · exact (h.tail.entry_bounds hx).1
    · have := hparent p hp
      omega
    · have := h.children.entry_bounds hx
      have := h.tail.entry_bounds hy
      omega

end Places

/-! ### The shape of a scan -/

/-- The parts of an element follow one another within the text, and each place is a boundary. -/
structure Element.Placed (source : List Char) (e : Element) : Prop where
  /-- The name follows the angle bracket. -/
  start_lt : e.start < e.nameEnd
  nameEnd_le : e.nameEnd ≤ e.openEnd
  openEnd_le : e.openEnd ≤ e.stop
  stop_le : e.stop ≤ Text.byteLength source
  /-- An angle bracket opens the element. -/
  opens : Text.slice e.start (e.start + 1) source = ['<']
  /-- The tag is what stands between that bracket and the end of the name. -/
  tag_eq : Text.slice (e.start + 1) e.nameEnd source = e.tag.toList
  /-- An angle bracket closes the element. -/
  closes : Text.slice (e.stop - 1) e.stop source = ['>']
  /-- An element without content ends with its opening tag. -/
  selfClosing : e.selfClosing = true → e.openEnd = e.stop
  /-- The attributes stand between the name and the end of the opening tag. -/
  attribute_bounds : ∀ a ∈ e.attributes,
    e.nameEnd ≤ a.start ∧ a.start < a.stop ∧ a.stop < e.openEnd
  /-- The attributes follow one another. -/
  attributes_inOrder : e.attributes.Pairwise fun a b => a.stop ≤ b.start
  isBoundary_start : IsBoundary source e.start
  isBoundary_nameEnd : IsBoundary source e.nameEnd
  isBoundary_openEnd : IsBoundary source e.openEnd
  isBoundary_stop : IsBoundary source e.stop
  isBoundary_attribute : ∀ a ∈ e.attributes, IsBoundary source a.start ∧ IsBoundary source a.stop

/-- Entries in document order whose relations are those of their places in the text. -/
structure WellNested (source : List Char) (entries : List Element.Entry) : Prop where
  /-- The elements begin in the order of their positions. -/
  starts_increasing : entries.Pairwise fun x y => x.element.start < y.element.start
  /-- An entry is a child of its parent, once, and of no other entry. -/
  parent_eq_some_iff : ∀ i p : Nat,
    (∃ x : Element.Entry, entries[i]? = some x ∧ x.parent = some p) ↔
      ∃ y : Element.Entry, entries[p]? = some y ∧ y.children.count i = 1
  /-- The children of an entry are in order. -/
  children_increasing : ∀ y ∈ entries, y.children.Pairwise (· < ·)
  /-- An entry follows its parent and lies strictly inside it. -/
  inside_parent : ∀ (i p : Nat) (x : Element.Entry), entries[i]? = some x → x.parent = some p →
    p < i ∧ ∃ y : Element.Entry, entries[p]? = some y ∧ y.element.start < x.element.start ∧
      x.element.stop < y.element.stop
  /-- Entries with one parent, or without any, do not overlap. -/
  siblings_inOrder : ∀ (i j : Nat) (x y : Element.Entry), i < j → entries[i]? = some x →
    entries[j]? = some y → x.parent = y.parent → x.element.stop ≤ y.element.start
  /-- The parts of every element lie where they should. -/
  placed : ∀ x ∈ entries, x.element.Placed source

/-- The places of a sound element, as slices of the text. -/
theorem Element.Sound.placed {source : List Char} {e : Element} (h : e.Sound source) :
    e.Placed source := by
  obtain ⟨hattributes, hboundaries⟩ := h.attributes
  have hle := hattributes.le
  have hname := h.nameEnd_eq
  have hopenEnd := h.openEnd_le
  have hopening : HasAt source e.start (['<'] ++ e.tag.toList) := h.opening
  have hcloses : HasAt source (e.stop - 1) ['>'] := h.stop
  have hlast : Text.byteLength ['>'] = 1 := rfl
  have hfirst : Text.byteLength ['<'] = 1 := rfl
  have hstop : e.stop - 1 + 1 = e.stop := by omega
  have hopen : e.openEnd - 1 + 1 = e.openEnd := by omega
  -- Each mark of the element stands at a boundary, and the marks stand in order.
  exact {
    start_lt := by omega
    nameEnd_le := by omega
    openEnd_le := hopenEnd
    stop_le := by
      have := hcloses.le
      omega
    opens := hopening.left.slice
    tag_eq := by
      rw [hname]
      exact hopening.right.slice
    closes := by
      have := hcloses.slice
      rwa [hlast, hstop] at this
    selfClosing := h.selfClosing
    attribute_bounds := fun a ha => by
      have := hattributes.of_mem ha
      omega
    attributes_inOrder := hattributes.pairwise
    isBoundary_start := hopening.isBoundary
    isBoundary_nameEnd := by
      rw [hname]
      exact hopening.right.isBoundary_stop
    isBoundary_openEnd := by
      have := h.openEnd.isBoundary_stop
      rwa [hlast, hopen] at this
    isBoundary_stop := by
      have := hcloses.isBoundary_stop
      rwa [hlast, hstop] at this
    isBoundary_attribute := hboundaries }

/-- The entries of sound elements side by side are well nested. -/
theorem Forest.wellNested {source : List Char} {lo hi : Nat} {es : List Element}
    (h : Forest source lo es hi) : WellNested source (Element.entriesOfAll none 0 es) where
  starts_increasing := by
    have := h.pairwise_start
    rw [← Element.map_element_entriesOfAll none 0 es, List.pairwise_map] at this
    exact this
  parent_eq_some_iff i p := by
    simp only [← List.mk_mem_zipIdx_iff_getElem?]
    constructor
    · rintro ⟨x, hx, hparent⟩
      rcases Element.parent_of_mem_zipIdx hx with ⟨hnone, -⟩ | ⟨q, y, hq, hy, -, -, hi⟩
      · simp [hnone] at hparent
      · obtain rfl : q = p := by simpa [hq] using hparent
        refine ⟨y, hy, ?_⟩
        -- Positions of children increase, so none is listed twice.
        have hsorted := Element.children_increasing (List.fst_mem_of_mem_zipIdx hy)
        have hnodup : y.children.Nodup := hsorted.imp Nat.ne_of_lt
        rw [hnodup.count, if_pos hi]
    · rintro ⟨y, hy, hcount⟩
      exact Element.mem_zipIdx_of_mem_children hy (List.count_pos_iff.1 (by omega))
  children_increasing y hy := Element.children_increasing hy
  inside_parent i p x hx hparent := by
    rw [← List.mk_mem_zipIdx_iff_getElem?] at hx
    rcases Element.parent_of_mem_zipIdx hx with ⟨hnone, -⟩ | ⟨q, y, hq, hy, hlt, hmem, -⟩
    · simp [hnone] at hparent
    · obtain rfl : q = p := by simpa [hq] using hparent
      refine ⟨hlt, y, List.mk_mem_zipIdx_iff_getElem?.1 hy, ?_⟩
      have hwalk : y.element ∈ Element.walkAll es := by
        rw [← Element.map_element_entriesOfAll none 0 es]
        exact List.mem_map_of_mem (List.fst_mem_of_mem_zipIdx hy)
      have := (h.2 _ hwalk).children.of_mem hmem
      omega
  siblings_inOrder i j x y hlt hx hy hsame := by
    have hpairs : (Element.entriesOfAll none 0 es).Pairwise _ := h.pairwise_siblings (by simp)
    obtain ⟨hi, rfl⟩ := List.getElem?_eq_some_iff.1 hx
    obtain ⟨hj, rfl⟩ := List.getElem?_eq_some_iff.1 hy
    exact List.pairwise_iff_getElem.1 hpairs i j hi hj hlt hsame
  placed x hx := by
    refine (h.2 x.element ?_).placed
    rw [← Element.map_element_entriesOfAll none 0 es]
    exact List.mem_map_of_mem hx

/-- The entries of a scanned text are in document order, and the elements lie inside one another as
the entries say. -/
theorem scan_wellNested {source : List Char} {es : List Element} (h : scan source = .ok es) :
    WellNested source (Element.entriesOfAll none 0 es) :=
  (forest_of_scan h).wellNested

/-- An element in the value of an attribute and one in a template are inside the elements around
them. -/
theorem scan_wellNested_values : ∃ es,
    scan "a = <p k=\x7b<b/>\x7d>\x7b\x60é$\x7b<i>x</i>\x7d\x60\x7d</p>".toList = .ok es ∧
      WellNested "a = <p k=\x7b<b/>\x7d>\x7b\x60é$\x7b<i>x</i>\x7d\x60\x7d</p>".toList
        (Element.entriesOfAll none 0 es) :=
  ⟨_, rfl, scan_wellNested rfl⟩

end Mockup.Jsx
