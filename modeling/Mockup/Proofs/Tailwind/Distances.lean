import Mathlib.Tactic.NormNum
import Mockup.Proofs.Decimal.Binary
import Mockup.Proofs.Text.FreshName
import Mockup.Proofs.Text.Words
import Mockup.Proofs.Ui.Validity
import Mockup.Tailwind.Utility

/-!
# Distances in classes

The distances of a layout are written in brackets as numbers of pixels. An integral distance is
written through an integer of 64 bits, so its numeral is right if and only if it is below `2 ^ 63`;
a greater one, which the check of a layout accepts all the same, is written as the greatest integer
of 64 bits.

* `ShowsDistance classes name numeral` — what the class of a distance shows.

## Main results

* `pixels_of_value?`: the numeral of an integral number of pixels.
* `mem_layoutClasses_iff`: a class with a bracket is the class of a distance.
* `showsDistance_layoutClasses`: what the classes of an accepted layout show of its distances.
* `not_showsDistance_layoutClasses_great`: a distance that is shown as another one.
-/

namespace Mockup.Tailwind

open Mockup.Ui

/-- Among these classes the one for the distance with this name shows this numeral, and nothing
else does. -/
def ShowsDistance (classes : List String) (name numeral : String) : Prop :=
  ∀ shown, name ++ "-[" ++ shown ++ "px]" ∈ classes ↔ shown = numeral

/-! ### Numerals -/

/-- An integral number of pixels is written as the nearest integer of 64 bits. -/
theorem pixels_of_value? {x : Float} {n : ℕ} (h : value? x = some n) :
    pixels x = toString (min n (2 ^ 63 - 1)) := by
  obtain ⟨b, hb, hvalue⟩ := Option.map_eq_some_iff.1 ((Binary.map_value_ofFloat? x).trans h)
  have hint : b.value = (n : ℤ) := by exact_mod_cast hvalue
  -- A number that is not negative is cut off at the upper end only.
  have hrange : max minInt (min maxInt n) = (min n (2 ^ 63 - 1) : ℕ) := by
    have hmin : minInt = -2 ^ 63 := rfl
    have hmax : maxInt = 2 ^ 63 - 1 := rfl
    omega
  simp only [pixels, hb, Binary.isIntegral_of_value_eq hint, Binary.truncated_of_value_eq hint,
    hrange, if_true]
  rfl

/-- A positive integral distance has a class, with the numeral of the nearest integer of 64 bits. -/
theorem distanceClass?_of_value? {name : String} {x : Float} {n : ℕ} (hn : 0 < n)
    (h : value? x = some n) :
    distanceClass? name (some x) =
      some (name ++ "-[" ++ toString (min n (2 ^ 63 - 1)) ++ "px]") := by
  have hpos : x > 0.0 := (zero_lt_iff_of_value? h).2 (Nat.cast_pos.2 hn)
  rw [distanceClass?, Option.filter_some, if_pos (decide_eq_true hpos), Option.map_some,
    pixels_of_value? h]

/-- The class of a distance is its name and something in brackets. -/
theorem exists_eq_of_distanceClass? {name c : String} {distance : Option Float}
    (h : distanceClass? name distance = some c) : ∃ shown, c = name ++ "-[" ++ shown ++ "px]" := by
  obtain ⟨x, -, hc⟩ := Option.map_eq_some_iff.1 h
  exact ⟨pixels x, hc.symm⟩

/-! ### The classes of a layout -/

theorem bracket_notMem_numbered {base : String} (h : '[' ∉ base.toList) (n : ℕ) :
    '[' ∉ (base ++ toString n).toList := by
  rw [String.toList_append, List.mem_append, not_or]
  refine ⟨h, fun hmem => ?_⟩
  exact absurd (Text.isAlphanum_of_mem_toString hmem) (by decide)

theorem bracket_notMem_displayClasses {l : Layout} :
    ∀ c ∈ displayClasses l, '[' ∉ c.toList := by
  unfold displayClasses
  split
  · split <;> decide
  · exact List.forall_mem_cons.2
      ⟨by decide, List.forall_mem_singleton.2 (bracket_notMem_numbered (by decide) _)⟩
  · decide

theorem bracket_notMem_alignClass : ∀ a : Ui.Alignment, '[' ∉ (alignClass a).toList
  | .start | .center | .end | .between | .around => by decide

theorem bracket_notMem_justifyClass : ∀ a : Ui.Alignment, '[' ∉ (justifyClass a).toList
  | .start | .center | .end | .between | .around => by decide

/-- A class with a bracket among those of a layout is the class of a distance. -/
theorem mem_layoutClasses_iff {l : Layout} {c : String} (hc : '[' ∈ c.toList) :
    c ∈ layoutClasses l ↔
      distanceClass? "gap" l.gap = some c ∨ distanceClass? "p" l.padding = some c := by
  have hdisplay : c ∉ displayClasses l := fun h => bracket_notMem_displayClasses c h hc
  have halign : c ∉ (l.align.map alignClass).toList := by
    rintro h
    obtain ⟨a, -, rfl⟩ := Option.map_eq_some_iff.1 (Option.mem_toList.1 h)
    exact bracket_notMem_alignClass a hc
  have hjustify : c ∉ (l.justify.map justifyClass).toList := by
    rintro h
    obtain ⟨a, -, rfl⟩ := Option.map_eq_some_iff.1 (Option.mem_toList.1 h)
    exact bracket_notMem_justifyClass a hc
  simp only [layoutClasses, List.mem_append, hdisplay, halign, hjustify, Option.mem_toList,
    false_or, or_false]

/-- The names of the distances and the distances that a layout has. -/
def distances (l : Layout) : List (String × Option Float) :=
  [("gap", l.gap), ("p", l.padding)]

/-- No class is that of both distances. -/
theorem gapClass_ne_paddingClass (s t : String) :
    "gap" ++ "-[" ++ s ++ "px]" ≠ "p" ++ "-[" ++ t ++ "px]" := by
  intro h
  have hhead := congrArg (fun c => c.toList.head?) h
  simp [String.toList_append] at hhead

/-- The class with the name of a distance is the class of this distance. -/
theorem showsDistance_of_distanceClass? {l : Layout} {name numeral : String}
    {distance : Option Float} (hmem : (name, distance) ∈ distances l)
    (h : distanceClass? name distance = some (name ++ "-[" ++ numeral ++ "px]")) :
    ShowsDistance (layoutClasses l) name numeral := by
  intro shown
  have hbracket : '[' ∈ (name ++ "-[" ++ shown ++ "px]").toList := by simp
  have heq : some (name ++ "-[" ++ numeral ++ "px]") = some (name ++ "-[" ++ shown ++ "px]") ↔
      shown = numeral := by
    rw [Option.some_inj, String.append_left_inj, String.append_right_inj, eq_comm]
  rw [mem_layoutClasses_iff hbracket]
  rcases List.mem_cons.1 hmem with hmem | hmem
  · obtain ⟨rfl, rfl⟩ := Prod.mk.inj hmem
    rw [h, heq, or_iff_left_iff_imp]
    intro hpadding
    obtain ⟨t, ht⟩ := exists_eq_of_distanceClass? hpadding
    exact absurd ht (gapClass_ne_paddingClass _ _)
  · obtain ⟨rfl, rfl⟩ := Prod.mk.inj (List.mem_singleton.1 hmem)
    rw [h, heq, or_iff_right_iff_imp]
    intro hgap
    obtain ⟨t, ht⟩ := exists_eq_of_distanceClass? hgap
    exact absurd ht.symm (gapClass_ne_paddingClass _ _)

/-- Each distance of an accepted layout is a rational number. If it is a positive integer, its class
shows the nearest integer of 64 bits. So the class shows the distance itself if and only if the
distance is below `2 ^ 63`. -/
theorem showsDistance_layoutClasses {place : Place} {l : Layout} (hl : l.problems place = []) :
    ∀ d ∈ distances l, ∀ x ∈ d.2, ∃ q, value? x = some q ∧
      ∀ n : ℕ, q = n → 0 < n →
        ShowsDistance (layoutClasses l) d.1 (toString (min n (2 ^ 63 - 1))) ∧
        (ShowsDistance (layoutClasses l) d.1 (toString n) ↔ n < 2 ^ 63) := by
  intro ⟨name, distance⟩ hd x hx
  obtain ⟨hgap, hpadding, -⟩ := Layout.problems_eq_nil_iff.1 hl
  have hnonneg : isNonNegative x = true := by
    rcases List.mem_cons.1 hd with hd | hd
    · obtain ⟨-, rfl⟩ := Prod.mk.inj hd
      exact hgap x hx
    · obtain ⟨-, rfl⟩ := Prod.mk.inj (List.mem_singleton.1 hd)
      exact hpadding x hx
  obtain ⟨q, hq⟩ := exists_value?_of_isFinite (isNonNegative_iff_le.1 hnonneg).1
  refine ⟨q, hq, fun n hqn hn => ?_⟩
  obtain rfl := Option.mem_def.1 hx
  have hshows : ShowsDistance (layoutClasses l) name (toString (min n (2 ^ 63 - 1))) :=
    showsDistance_of_distanceClass? hd (distanceClass?_of_value? hn (hq.trans (congrArg some hqn)))
  refine ⟨hshows, fun h => ?_, fun h => ?_⟩
  · -- The one class with the name shows one numeral only.
    have heq := (hshows (toString n)).1 ((h _).2 rfl)
    have := Text.toString_injective heq
    omega
  · rwa [min_eq_left (by omega)] at hshows

/-- A distance of twelve pixels, and the greatest one below `2 ^ 63` that a floating-point number
can be. -/
def fittingLayout : Layout :=
  { gap := some 12.0, padding := some 9223372036854774784.0 }

theorem showsDistance_layoutClasses_fitting :
    fittingLayout.problems [] = [] ∧
      (value? 12.0 = some (12 : ℕ) ∧ ShowsDistance (layoutClasses fittingLayout) "gap" "12") ∧
      value? 9223372036854774784.0 = some (9223372036854774784 : ℕ) ∧
      ShowsDistance (layoutClasses fittingLayout) "p" "9223372036854774784" := by
  have hproblems : fittingLayout.problems [] = [] := Layout.problems_eq_nil_iff.2 (by decide)
  have hgap : value? 12.0 = some (12 : ℕ) := by
    rw [← Binary.map_value_ofFloat?,
      show Binary.ofFloat? 12.0 = some ⟨false, 6755399441055744, -49⟩ from rfl]
    norm_num [Binary.value]
  have hpadding : value? 9223372036854774784.0 = some (9223372036854774784 : ℕ) := by
    rw [← Binary.map_value_ofFloat?,
      show Binary.ofFloat? 9223372036854774784.0 = some ⟨false, 9007199254740991, 10⟩ from rfl]
    norm_num [Binary.value]
  refine ⟨hproblems, ⟨hgap, ?_⟩, hpadding, ?_⟩
  · obtain ⟨q, hq, hshows⟩ :=
      showsDistance_layoutClasses hproblems ("gap", _) List.mem_cons_self 12.0 rfl
    exact (hshows 12 (Option.some.inj (hq.symm.trans hgap)) (by decide)).1
  · obtain ⟨q, hq, hshows⟩ := showsDistance_layoutClasses hproblems ("p", _)
      (List.mem_cons_of_mem _ List.mem_cons_self) 9223372036854774784.0 rfl
    exact (hshows _ (Option.some.inj (hq.symm.trans hpadding)) (by decide)).1

/-- A distance of `10 ^ 19` pixels. -/
def greatLayout : Layout :=
  { gap := some 1e19 }

/-- The check accepts the distance, and its class shows another one. -/
theorem not_showsDistance_layoutClasses_great :
    greatLayout.problems [] = [] ∧ greatLayout.gap = some 1e19 ∧
      value? 1e19 = some (10000000000000000000 : ℕ) ∧
      "gap-[9223372036854775807px]" ∈ layoutClasses greatLayout ∧
      ¬ ShowsDistance (layoutClasses greatLayout) "gap" "10000000000000000000" := by
  have hvalue : value? 1e19 = some (10000000000000000000 : ℕ) := by
    rw [← Binary.map_value_ofFloat?,
      show Binary.ofFloat? 1e19 = some ⟨false, 4882812500000000, 11⟩ from rfl]
    norm_num [Binary.value]
  have hclass : distanceClass? "gap" greatLayout.gap = some "gap-[9223372036854775807px]" :=
    distanceClass?_of_value? (by decide) hvalue
  have hshown : "gap-[9223372036854775807px]" ∈ layoutClasses greatLayout :=
    (mem_layoutClasses_iff (by decide)).2 (.inl hclass)
  refine ⟨Layout.problems_eq_nil_iff.2 (by decide), rfl, hvalue, hshown, fun h => ?_⟩
  exact absurd ((h "9223372036854775807").1 hshown) (by decide)

end Mockup.Tailwind
