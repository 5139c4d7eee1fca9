import Mockup.Jsx.Element

/-!
# Walking through elements

The unfolding laws of the recursive functions on elements, so that no later proof opens them.
-/

namespace Mockup.Jsx.Element

/-- What holds of no elements, and of several when it holds inside the first and of the others,
holds of all lists of elements. -/
theorem forest_induction {P : List Element → Prop} (nil : P [])
    (cons : ∀ e es, P e.children → P es → P (e :: es)) (es : List Element) : P es :=
  @Element.rec_1 (fun e => P e.children) P
    (fun _ _ _ _ _ _ _ _ h => h) nil (fun e es he hes => cons e es he hes) es

/-- A walk begins with the element and goes on with what is inside it. -/
theorem walk_eq (e : Element) : e.walk = e :: walkAll e.children := by
  cases e
  rw [walk]

@[simp]
theorem walkAll_nil : walkAll [] = [] := by
  rw [walkAll]

@[simp]
theorem walkAll_cons (e : Element) (es : List Element) :
    walkAll (e :: es) = e :: (walkAll e.children ++ walkAll es) := by
  rw [walkAll, walk_eq, List.cons_append]

/-- A walk through several elements may be made in parts. -/
@[simp]
theorem walkAll_append (es fs : List Element) : walkAll (es ++ fs) = walkAll es ++ walkAll fs := by
  induction es with
  | nil => simp
  | cons e es ih => simp [ih]

/-- The size of an element counts it and all that is inside it. -/
theorem size_eq (e : Element) : e.size = (walkAll e.children).length + 1 := by
  simp [size, walk_eq]

/-- An element is one of those that a walk through its list meets. -/
theorem mem_walkAll_of_mem {e : Element} {es : List Element} (h : e ∈ es) : e ∈ walkAll es := by
  induction es with
  | nil => simp at h
  | cons f fs ih =>
    rcases List.mem_cons.1 h with rfl | h
    · simp
    · simp [ih h]

/-! ### Entries -/

theorem entries_eq (parent : Option Nat) (index : Nat) (e : Element) :
    entries parent index e =
      ⟨e, parent, positions (index + 1) e.children⟩ ::
        entriesOfAll (some index) (index + 1) e.children := by
  cases e
  rw [entries]

@[simp]
theorem entriesOfAll_nil (parent : Option Nat) (index : Nat) :
    entriesOfAll parent index [] = [] := by
  rw [entriesOfAll]

@[simp]
theorem entriesOfAll_cons (parent : Option Nat) (index : Nat) (e : Element) (es : List Element) :
    entriesOfAll parent index (e :: es) =
      ⟨e, parent, positions (index + 1) e.children⟩ ::
        (entriesOfAll (some index) (index + 1) e.children ++
          entriesOfAll parent (index + e.size) es) := by
  rw [entriesOfAll, entries_eq, List.cons_append]

/-- The entries list the elements in the order of a walk. -/
@[simp]
theorem map_element_entriesOfAll (parent : Option Nat) (index : Nat) (es : List Element) :
    (entriesOfAll parent index es).map Entry.element = walkAll es := by
  induction es using forest_induction generalizing parent index with
  | nil => simp
  | cons e es ihc ihs => simp [ihc, ihs]

/-- There is one entry for each element. -/
@[simp]
theorem length_entriesOfAll (parent : Option Nat) (index : Nat) (es : List Element) :
    (entriesOfAll parent index es).length = (walkAll es).length := by
  rw [← map_element_entriesOfAll parent index es, List.length_map]

end Mockup.Jsx.Element
