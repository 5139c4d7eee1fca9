import Mathlib.Data.List.Nodup
import Mathlib.Data.List.Perm.Subperm
import Mockup.Text.Identifier

/-!
# Names that are not taken

The names that are tried for a new name differ, and there is one more of them than there are taken
names. So one of them is free.

## Main results

* `nodup_candidates`: the names that are tried differ.
* `freshName_notMem`: the name that is chosen is not taken.
-/

namespace Mockup.Text

/-- The number that a text shows can be told from the text. -/
theorem toString_injective : Function.Injective (toString : Nat → String) := by
  intro m n h
  rw [Nat.toString_eq_ofList_toDigits, Nat.toString_eq_ofList_toDigits, String.ofList_inj] at h
  rw [← Nat.ofDigitChars_ten_toDigits (n := m), h, Nat.ofDigitChars_ten_toDigits]

/-- A name with a number at its end is a different name for each number. -/
theorem numbered_injective (base : String) :
    Function.Injective fun n : Nat => base ++ toString (n + 2) := by
  intro m n h
  exact Nat.add_right_cancel (toString_injective ((String.append_right_inj base).1 h))

theorem numbered_ne (base : String) (n : Nat) : base ++ toString (n + 2) ≠ base := by
  intro h
  have hempty : toString (n + 2) = "" := by
    rw [← String.append_right_inj base, h, String.append_empty]
  have hpos : 0 < (toString (n + 2)).length := Nat.length_repr_pos
  simp [hempty] at hpos

/-- The names that are tried differ. -/
theorem nodup_candidates (base : String) (count : Nat) : (candidates base count).Nodup := by
  refine List.nodup_cons.2 ⟨fun h => ?_, List.nodup_range.map (numbered_injective base)⟩
  obtain ⟨n, -, hn⟩ := List.mem_map.1 h
  exact numbered_ne base n hn

theorem length_candidates (base : String) (count : Nat) :
    (candidates base count).length = count + 1 := by
  simp [candidates]

/-- One of the names that are tried is not taken, for there are more of them than are taken. -/
theorem exists_candidate_notMem (taken : List String) (base : String) :
    ∃ c ∈ candidates base taken.length, c ∉ taken := by
  by_contra h
  have hsub : candidates base taken.length ⊆ taken := by
    intro c hc
    by_contra hnot
    exact h ⟨c, hc, hnot⟩
  have hle := (List.subperm_of_subset (nodup_candidates base taken.length) hsub).length_le
  rw [length_candidates] at hle
  exact Nat.not_succ_le_self _ hle

/-- The name that is chosen is not taken. -/
theorem freshName_notMem (taken : List String) (base : String) : freshName taken base ∉ taken := by
  obtain ⟨c, hc, hnot⟩ := exists_candidate_notMem taken base
  have hsome : ((candidates base taken.length).find? fun c => !taken.contains c).isSome = true := by
    rw [List.find?_isSome]
    exact ⟨c, hc, by simpa using hnot⟩
  obtain ⟨d, hd⟩ := Option.isSome_iff_exists.1 hsome
  rw [freshName, hd, Option.getD_some]
  simpa using List.find?_some hd

/-- The name that is chosen is the given one with nothing or a number after it. -/
theorem exists_freshName_eq_append (taken : List String) (base : String) :
    ∃ number, freshName taken base = base ++ number := by
  have hmem : freshName taken base ∈ candidates base taken.length := by
    rw [freshName]
    cases hfind : (candidates base taken.length).find? fun c => !taken.contains c with
    | none => exact List.mem_cons_self
    | some c => exact List.mem_of_find?_eq_some hfind
  rcases List.mem_cons.1 hmem with h | h
  · exact ⟨"", by rw [h, String.append_empty]⟩
  · obtain ⟨n, -, hn⟩ := List.mem_map.1 h
    exact ⟨toString (n + 2), hn.symm⟩

end Mockup.Text
