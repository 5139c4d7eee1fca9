import Mathlib.Data.List.Nodup
import Mockup.Markup.Feature
import Mockup.Proofs.Json.Fields

/-!
# Features of a mockup

The features of an element are those of the element and of all below it, in document order, and a
feature has of each attribute the last value that the element gives to it. The element itself
answers with the first one.

* `s.pending` — the elements whose features are still to come.
* `s.Lists fs t` — a sequence lists some features and goes on as another sequence.
* `valuesIn attributes name`, `e.valuesOf name` — the values that attributes, or those of an
  element, give to a name, in order.

## Main results

* `Features.toList_eq`: the stack holds the elements from which the rest of a sequence comes.
* `Element.lists_features`: what is listed up to any point, and up to the end.
* `Element.attribute?_eq_head?` and `Feature.attribute?_ofElement`: which value counts where.
-/

namespace Mockup.Markup

/-! ### The sequence of features -/

namespace Features

/-- The elements whose features are still to come: those of the stack, each with all below it. -/
def pending (s : Features) : List Element :=
  s.stack.flatMap Element.walk

/-- `s.Lists fs t` — the sequence `s` lists the features `fs` one after the other and goes on as
`t`. -/
inductive Lists : Features → List Feature → Features → Prop
  | nil (s : Features) : Lists s [] s
  | cons {s t u : Features} {f : Feature} {fs : List Feature} (hnext : s.next? = some (f, t))
    (hrest : Lists t fs u) : Lists s (f :: fs) u

variable {s t : Features} {f : Feature} {fs : List Feature}

/-- The next feature is that of the first element that is still to come, and the others are still to
come after it. -/
theorem exists_pending_of_next? (h : s.next? = some (f, t)) :
    ∃ e, s.pending = e :: t.pending ∧ f = .ofElement e := by
  obtain ⟨stack⟩ := s
  cases stack with
  | nil => cases h
  | cons e stack =>
    simp only [next?, Option.some.injEq, Prod.mk.injEq] at h
    obtain ⟨rfl, rfl⟩ := h
    have hbelow : e.elements.flatMap Element.walk = e.descendants := (Element.descendants_eq e).symm
    refine ⟨e, ?_, rfl⟩
    rw [pending, pending, List.flatMap_cons, List.flatMap_append, hbelow, Element.walk,
      List.cons_append]

/-- A sequence has come to its end exactly if no element is still to come. -/
theorem next?_eq_none_iff : s.next? = none ↔ s.pending = [] := by
  obtain ⟨stack⟩ := s
  cases stack with
  | nil => exact iff_of_true rfl rfl
  | cons e stack => exact iff_of_false nofun nofun

/-- A sequence with elements still to come has a next feature, which is that of the first one. -/
theorem exists_next?_of_pending {e : Element} {es : List Element} (h : s.pending = e :: es) :
    ∃ t, s.next? = some (.ofElement e, t) ∧ t.pending = es := by
  cases hnext : s.next? with
  | none => simp [next?_eq_none_iff.1 hnext] at h
  | some next =>
    obtain ⟨f, t⟩ := next
    obtain ⟨e', hpending, rfl⟩ := exists_pending_of_next? hnext
    obtain ⟨rfl, rfl⟩ := List.cons.inj (h.symm.trans hpending)
    exact ⟨t, rfl, rfl⟩

/-- The features that are still to come are those of the elements of the stack and of all below
them. -/
theorem toList_eq (s : Features) :
    s.toList = (s.stack.flatMap Element.walk).map Feature.ofElement := by
  -- The induction is on the elements that are still to come, since the stack may grow.
  change s.toList = s.pending.map Feature.ofElement
  induction hpending : s.pending generalizing s with
  | nil =>
    rw [toList]
    split
    · rfl
    · next hnext => simp [next?_eq_none_iff.2 hpending] at hnext
  | cons e es ih =>
    obtain ⟨t, hnext, ht⟩ := exists_next?_of_pending hpending
    rw [toList]
    split
    · next hnone => simp [hnext] at hnone
    · next f u hsome =>
      obtain ⟨rfl, rfl⟩ := Prod.mk.inj (Option.some.inj (hnext.symm.trans hsome))
      rw [ih t ht, List.map_cons]

/-- A sequence comes to its end, and up to there it lists the features of all elements that are
still to come. -/
theorem exists_lists_pending (s : Features) :
    ∃ t, s.Lists (s.pending.map .ofElement) t ∧ t.next? = none := by
  induction hpending : s.pending generalizing s with
  | nil => exact ⟨s, .nil s, next?_eq_none_iff.2 hpending⟩
  | cons e es ih =>
    obtain ⟨t, hnext, ht⟩ := exists_next?_of_pending hpending
    obtain ⟨u, hlists, hend⟩ := ih t ht
    exact ⟨u, .cons hnext hlists, hend⟩

/-- The features that are listed are those of the first elements that were still to come. -/
theorem Lists.exists_pending (h : s.Lists fs t) :
    ∃ listed, s.pending = listed ++ t.pending ∧ fs = listed.map .ofElement := by
  induction h with
  | nil s => exact ⟨[], rfl, rfl⟩
  | cons hnext _ ih =>
    obtain ⟨e, hpending, rfl⟩ := exists_pending_of_next? hnext
    obtain ⟨listed, hlisted, rfl⟩ := ih
    exact ⟨e :: listed, by rw [hpending, hlisted, List.cons_append], rfl⟩

/-- What is listed up to the end is known from the stack. -/
theorem Lists.eq_map_pending (h : s.Lists fs t) (hend : t.next? = none) :
    fs = s.pending.map .ofElement := by
  obtain ⟨listed, hlisted, rfl⟩ := h.exists_pending
  rw [hlisted, next?_eq_none_iff.1 hend, List.append_nil]

end Features

/-- The features of an element are those of the element and of all below it, in document order. -/
theorem Element.features_eq (e : Element) : e.features = e.walk.map Feature.ofElement := by
  rw [features, Features.toList_eq, Features.start, List.flatMap_singleton]

/-- The sequence of features of an element comes to its end, and up to there it lists one feature
for the element and for each one below it, in document order. At every point on the way the stack
holds elements that, each with all below it, are the ones without a feature so far; so the stack
alone decides what is still listed. -/
theorem Element.lists_features (e : Element) :
    (∃ s, (Features.start e).Lists ((e :: e.descendants).map .ofElement) s ∧ s.next? = none) ∧
    e.features = (e :: e.descendants).map .ofElement ∧
    ∀ fs s, (Features.start e).Lists fs s →
      (∃ listed, fs = listed.map .ofElement ∧
        e :: e.descendants = listed ++ s.stack.flatMap fun r => r :: r.descendants) ∧
      ∀ gs t, s.Lists gs t → t.next? = none →
        gs = (s.stack.flatMap fun r => r :: r.descendants).map .ofElement := by
  have hpending : (Features.start e).pending = e :: e.descendants := List.flatMap_singleton _ _
  refine ⟨?_, e.features_eq, fun fs s hlists => ⟨?_, fun gs t hrest hend => ?_⟩⟩
  · rw [← hpending]
    exact Features.exists_lists_pending _
  · obtain ⟨listed, hlisted, hfs⟩ := hlists.exists_pending
    exact ⟨listed, hfs, hpending.symm.trans hlisted⟩
  · exact hrest.eq_map_pending hend

/-! ### Attributes -/

/-- The values that a list of attributes gives to a name, in order. -/
def valuesIn (attributes : List (String × String)) (name : String) : List String :=
  (attributes.filter fun a => a.1 == name).map (·.2)

/-- The values that an element gives to a name, in document order. -/
def Element.valuesOf (e : Element) (name : String) : List String :=
  valuesIn e.attributes name

/-- An element answers with the first value. -/
theorem Element.attribute?_eq_head? (e : Element) (name : String) :
    e.attribute? name = (e.valuesOf name).head? := by
  rw [attribute?, valuesOf, valuesIn, List.head?_map, List.head?_filter]

/-- A feature answers with the last value. -/
theorem Feature.attribute?_ofElement (e : Element) (name : String) :
    (ofElement e).attribute? name = (e.valuesOf name).getLast? := by
  rw [attribute?, ofElement, Dict.get?_ofList, Element.valuesOf, valuesIn, List.getLast?_map,
    ← List.head?_reverse, ← List.filter_reverse, List.head?_filter]

/-- An element whose attributes differ in their names gives at most one value to a name. -/
theorem Element.length_valuesOf_le {e : Element} (h : (e.attributes.map Prod.fst).Nodup)
    (name : String) : (e.valuesOf name).length ≤ 1 := by
  have hcount := List.nodup_iff_count_le_one.1 h name
  rw [List.count_eq_countP, List.countP_map, List.countP_eq_length_filter] at hcount
  rw [valuesOf, valuesIn, List.length_map]
  exact hcount

/-- Of at most one value the first is the last. -/
theorem head?_eq_getLast?_of_length_le {values : List String} (h : values.length ≤ 1) :
    values.head? = values.getLast? := by
  match values, h with
  | [], _ => rfl
  | [_], _ => rfl

/-- An element whose attributes differ in their names and its feature answer alike. -/
theorem Feature.attribute?_ofElement_of_nodup {e : Element}
    (h : (e.attributes.map Prod.fst).Nodup) (name : String) :
    (ofElement e).attribute? name = e.attribute? name := by
  rw [attribute?_ofElement, Element.attribute?_eq_head?,
    head?_eq_getLast?_of_length_le (Element.length_valuesOf_le h name)]

end Mockup.Markup
