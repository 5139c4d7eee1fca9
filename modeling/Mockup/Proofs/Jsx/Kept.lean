import Mathlib.Data.List.Forall2
import Mockup.Proofs.Jsx.DocumentOrder

/-!
# Elements that an edit keeps

An edit in an element puts a text in the place of another one. The elements before it and after it
are kept: what follows the edit is moved, an attribute of the edited element is written or added,
the elements that stood in the replaced text are gone, and those of the new text follow the one that
ends where it begins. `Kept` says so of two lists of elements.

## Main results

* `Kept.refl`: what lies before an edit is kept as it is.
* `Kept.dropped`: what lies inside the replaced text is gone.
* `Kept.append`: lists that are kept are kept one after the other.
-/

namespace Mockup.Jsx

open Text (InOrder)

/-! ### Edits of an element -/

/-- A change of the text inside an element. -/
structure Splice where
  /-- The place where the texts begin to differ. -/
  start : Nat
  /-- The end of the text that is replaced. -/
  stop : Nat
  /-- The end of the text that is put there. -/
  newStop : Nat
  /-- The start of the element that is edited. -/
  owner : Nat
  /-- The value that is written, if an attribute is overwritten. -/
  value : Option Value
  /-- The attribute that is added, if none is overwritten. -/
  added : Option Attribute
  /-- The elements of the replaced text. -/
  drops : Element → Bool
  /-- The element begins before the edit. -/
  owner_lt : owner < start
  /-- The replaced text may be empty. -/
  start_le : start ≤ stop
  /-- The elements of the replaced text lie in it. -/
  drops_within : ∀ e, drops e = true → start ≤ e.start ∧ e.stop ≤ stop
  /-- The elements that are put after the one that ends where the texts begin to differ. -/
  inserted : List Element := []

namespace Splice

variable (d : Splice)

/-- A place after the edit, and where it is moved to. -/
def After (place place' : Nat) : Prop :=
  d.stop ≤ place ∧ place' + d.stop = place + d.newStop

/-- A place before or after the edit, and where it is afterwards. -/
def Moved (place place' : Nat) : Prop :=
  (place ≤ d.start ∧ place' = place) ∨ d.After place place'

/-- A tag opens with the edited one or before it, or after the edit. -/
def Begun (place place' : Nat) : Prop :=
  (place ≤ d.owner ∧ place' = place) ∨ d.After place place'

/-- A part of the text lies before the edit, around it or after it, and its ends move accordingly.
What lies around the edit begins with the edited element or before it. -/
inductive Sited (start stop start' stop' : Nat) : Prop
  | before (hstop : stop ≤ d.start) (hstart' : start' = start) (hstop' : stop' = stop)
  | around (hstart : start ≤ d.owner) (hstart' : start' = start) (hlt : d.stop < stop)
    (hstop' : d.After stop stop')
  | after (hstart : d.After start start') (hstop : d.After stop stop')

/-- The edit is inside an attribute. -/
def EnclosedBy (a : Attribute) : Prop :=
  a.start < d.start ∧ d.stop < a.stop

/-- The edit overwrites an attribute of the element that starts at a place. -/
def Overwrites (place : Nat) (a : Attribute) : Prop :=
  d.start < d.stop ∧ place = d.owner ∧ a.start = d.start

/-- The attribute that is added to an element that starts at a place. -/
def addedTo (place : Nat) : List Attribute :=
  if place = d.owner then d.added.toList else []

/-- The elements that are put after one that ends at a place. -/
def insertedAfter (place : Nat) : List Element :=
  if place = d.start then d.inserted else []

variable {d} {place place' : Nat}

theorem After.moved (h : d.After place place') : d.Moved place place' :=
  .inr h

theorem Moved.before (h : place ≤ d.start) : d.Moved place place :=
  .inl ⟨h, rfl⟩

/-- The start of the replaced text stays, if that text is not empty. -/
theorem Moved.start_eq (h : d.Moved d.start place') (hlt : d.start < d.stop) :
    place' = d.start := by
  rcases h with ⟨-, heq⟩ | ⟨hle, -⟩
  · exact heq
  · omega

/-- The end of the replaced text moves to the end of the new one. -/
theorem Moved.stop_eq (h : d.Moved d.stop place') (hlt : d.start < d.stop) :
    place' = d.newStop := by
  rcases h with ⟨hle, -⟩ | ⟨-, heq⟩
  · omega
  · omega

/-- Places after the edit move with those that follow them. -/
theorem After.add (h : d.After place place') (n : Nat) : d.After (place + n) (place' + n) := by
  obtain ⟨hle, heq⟩ := h
  constructor <;> omega

/-- An element that begins after the edit is not the edited one. -/
theorem After.ne_owner (h : d.After place place') : place ≠ d.owner := by
  have howner := d.owner_lt
  have hle := d.start_le
  have hplace := h.1
  omega

/-- An element that begins before the replaced text or ends after it is not dropped. -/
theorem drops_eq_false (d : Splice) {e : Element} (h : e.start < d.start ∨ d.stop < e.stop) :
    d.drops e = false := by
  rw [Bool.eq_false_iff]
  intro hdrops
  have hwithin := d.drops_within e hdrops
  omega

theorem addedTo_of_ne (h : place ≠ d.owner) : d.addedTo place = [] :=
  if_neg h

theorem insertedAfter_of_ne (h : place ≠ d.start) : d.insertedAfter place = [] :=
  if_neg h

theorem insertedAfter_of_nil (h : d.inserted = []) (place : Nat) : d.insertedAfter place = [] := by
  rw [insertedAfter, h, ite_self]

end Splice

/-! ### Attributes -/

variable {d : Splice}

/-- An attribute of an element that starts at a place keeps its name, and its value too unless the
edit is in it. Where the edit overwrites the attribute, the value is the written one. -/
structure AttributeKept (d : Splice) (place : Nat) (a a' : Attribute) : Prop where
  name : a'.name = a.name
  start : d.Moved a.start a'.start
  stop : d.Moved a.stop a'.stop
  value : ¬d.EnclosedBy a → ¬d.Overwrites place a → a'.value = a.value
  written : d.Overwrites place a → a'.value = d.value

/-- The attributes of an element that starts at a place are kept in order, and one may be added. -/
def AttributesKept (d : Splice) (place : Nat) (as as' : List Attribute) : Prop :=
  ∃ front back, as' = front ++ d.addedTo place ++ back ∧
    List.Forall₂ (AttributeKept d place) as (front ++ back)

/-- An attribute before the edit is kept as it is. -/
theorem AttributeKept.refl {place : Nat} {a : Attribute} (hlt : a.start < a.stop)
    (hle : a.stop ≤ d.start) : AttributeKept d place a a where
  name := rfl
  start := .before (by omega)
  stop := .before hle
  value _ _ := rfl
  written h := by
    have hstart := h.2.2
    omega

theorem forall₂_attributeKept {place lo hi : Nat} {as : List Attribute}
    (h : InOrder Attribute.start Attribute.stop lo as hi) (hhi : hi ≤ d.start) :
    List.Forall₂ (AttributeKept d place) as as := by
  rw [List.forall₂_same]
  intro a ha
  obtain ⟨-, hlt, hstop⟩ := h.of_mem ha
  exact .refl hlt (Nat.le_trans hstop hhi)

/-- Attributes before the edit are kept as they are, if none is added. -/
theorem AttributesKept.refl {place lo hi : Nat} {as : List Attribute}
    (h : InOrder Attribute.start Attribute.stop lo as hi) (hhi : hi ≤ d.start)
    (hnone : d.addedTo place = []) : AttributesKept d place as as :=
  ⟨as, [], by simp [hnone], by simpa using forall₂_attributeKept h hhi⟩

/-- Attributes before the edit are kept when one is added after them. -/
theorem AttributesKept.add {lo hi : Nat} {as : List Attribute} {a : Attribute}
    (h : InOrder Attribute.start Attribute.stop lo as hi) (hhi : hi ≤ d.start)
    (hadded : d.added = some a) : AttributesKept d d.owner as (as ++ [a]) :=
  ⟨as, [], by simp [Splice.addedTo, hadded], by simpa using forall₂_attributeKept h hhi⟩

/-- A further attribute is kept after those before it. -/
theorem AttributesKept.concat {place : Nat} {as as' : List Attribute} {a a' : Attribute}
    (h : AttributesKept d place as as') (ha : AttributeKept d place a a') :
    AttributesKept d place (as ++ [a]) (as' ++ [a']) := by
  obtain ⟨front, back, rfl, hkept⟩ := h
  refine ⟨front, back ++ [a'], by simp, ?_⟩
  rw [← List.append_assoc]
  exact List.rel_append hkept (.cons ha .nil)

/-! ### Elements -/

/-- What an edit keeps of an element but for what is inside it. -/
structure ElementKept (d : Splice) (e e' : Element) : Prop where
  tag : e'.tag = e.tag
  selfClosing : e'.selfClosing = e.selfClosing
  sited : d.Sited e.start e.stop e'.start e'.stop
  nameEnd : d.Moved e.nameEnd e'.nameEnd
  openEnd : d.Moved e.openEnd e'.openEnd
  attributes : AttributesKept d e.start e.attributes e'.attributes

/-- Elements are kept in order with those inside them, but for those that stood in the replaced
text, and the elements of the new text follow the one that ends where it begins. -/
inductive Kept (d : Splice) : List Element → List Element → Prop
  | nil : Kept d [] []
  | keep {e e' : Element} {es es' : List Element} (kept : d.drops e = false)
    (element : ElementKept d e e') (inside : Kept d e.children e'.children)
    (rest : Kept d es es') : Kept d (e :: es) (e' :: (d.insertedAfter e.stop ++ es'))
  | drop {e : Element} {es es' : List Element} (dropped : d.drops e = true) (rest : Kept d es es') :
    Kept d (e :: es) es'

namespace Kept

/-- Lists that are kept are kept one after the other. -/
theorem append {es es' fs fs' : List Element} (hes : Kept d es es') (hfs : Kept d fs fs') :
    Kept d (es ++ fs) (es' ++ fs') := by
  induction hes with
  | nil => exact hfs
  | keep kept element inside _ _ ih =>
    rw [List.cons_append, List.cons_append, List.append_assoc]
    exact .keep kept element inside ih
  | drop dropped _ ih => exact .drop dropped ih

theorem singleton {e e' : Element} (kept : d.drops e = false) (element : ElementKept d e e')
    (inside : Kept d e.children e'.children) : Kept d [e] (e' :: d.insertedAfter e.stop) := by
  rw [← List.append_nil (d.insertedAfter e.stop)]
  exact .keep kept element inside .nil

/-- What stood in the replaced text is gone. -/
theorem dropped {es : List Element} (h : ∀ e ∈ es, d.drops e = true) : Kept d es [] := by
  induction es with
  | nil => exact .nil
  | cons e es ih =>
    exact .drop (h e List.mem_cons_self) (ih fun f hf => h f (List.mem_cons_of_mem _ hf))

end Kept

/-- A sound element before the edit is kept as it is. -/
theorem Element.Sound.kept {source : List Char} {e : Element} (h : e.Sound source)
    (hstop : e.stop ≤ d.start) (hne : e.start ≠ d.owner) : ElementKept d e e := by
  have hname := h.nameEnd_eq
  have hattributes := h.attributes.1.le
  have hopenEnd := h.openEnd_le
  have hplace : e.start < e.stop := by
    have := h.children.le
    omega
  exact {
    tag := rfl
    selfClosing := rfl
    sited := .before hstop rfl rfl
    nameEnd := .before (by omega)
    openEnd := .before (by omega)
    attributes := .refl h.attributes.1 (by omega) (Splice.addedTo_of_ne hne) }

/-- What lies before an edit is kept as it is, if the edited element is not part of it and nothing
is put after it. -/
theorem Kept.refl {source : List Char} {lo hi : Nat} {es : List Element}
    (h : Forest source lo es hi) (hhi : hi ≤ d.start) (howner : d.owner < lo ∨ hi ≤ d.owner)
    (hnone : hi < d.start ∨ d.inserted = []) : Kept d es es := by
  induction es using Element.forest_induction generalizing lo hi with
  | nil => exact .nil
  | cons e es ihc ihs =>
    obtain ⟨hstart, hlt, htail⟩ := h.1
    have hle := htail.le
    have sound : e.Sound source := h.2 e (by simp)
    -- The elements end before the edit, so none is dropped and all keep their places.
    have kept : d.drops e = false := d.drops_eq_false (.inl (by omega))
    have hafter : d.insertedAfter e.stop = [] := by
      rcases hnone with hnone | hnone
      · exact Splice.insertedAfter_of_ne (by omega)
      · exact Splice.insertedAfter_of_nil hnone _
    have hcons := Kept.keep kept (sound.kept (by omega) (by omega))
      (ihc h.children (by omega) (by omega) (.inl (by omega)))
      (ihs h.tail (by omega) (by omega) hnone)
    rwa [hafter, List.nil_append] at hcons

end Mockup.Jsx
