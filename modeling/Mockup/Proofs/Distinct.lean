import Mathlib.Data.List.Induction
import Mathlib.Data.List.Nodup

/-!
# Lists without repetitions

What is gathered one by one, each if it is not there already, is the list of first occurrences.

## Main results

* `eraseDups_concat`, `append_eraseDups_filter_concat`: what one more element adds.
* `eraseDups_filterMap_eraseDups`: repetitions may be dropped before a search or after it.
-/

namespace Mockup

section EraseDups

variable {α β : Type} [DecidableEq α] [DecidableEq β]

theorem eraseDups_concat (as : List α) (a : α) :
    (as ++ [a]).eraseDups = if a ∈ as then as.eraseDups else as.eraseDups ++ [a] := by
  rw [List.eraseDups_append]
  split <;> simp_all [List.removeAll, List.eraseDups_cons]

theorem nodup_eraseDups (as : List α) : as.eraseDups.Nodup := by
  induction as using List.reverseRecOn with
  | nil => exact List.nodup_nil
  | append_singleton as a ih =>
    rw [eraseDups_concat]
    split
    · exact ih
    · next h =>
      refine List.nodup_append.2 ⟨ih, List.nodup_singleton a, fun b hb c hc => ?_⟩
      obtain rfl := List.mem_singleton.1 hc
      exact fun heq => h (heq ▸ List.mem_eraseDups.1 hb)

/-- Nothing is dropped where nothing occurs twice. -/
theorem eraseDups_of_nodup {as : List α} (h : as.Nodup) : as.eraseDups = as := by
  induction as using List.reverseRecOn with
  | nil => rfl
  | append_singleton as a ih =>
    obtain ⟨has, -, hdisjoint⟩ := List.nodup_append.1 h
    have hnot : a ∉ as := fun hmem => hdisjoint a hmem a List.mem_cons_self rfl
    rw [eraseDups_concat, if_neg hnot, ih has]

/-- Repetitions that are dropped before a search could as well be dropped after it. -/
theorem eraseDups_filterMap_eraseDups (f : α → Option β) (as : List α) :
    (as.eraseDups.filterMap f).eraseDups = (as.filterMap f).eraseDups := by
  induction as using List.reverseRecOn with
  | nil => rfl
  | append_singleton as a ih =>
    rw [eraseDups_concat, List.filterMap_append]
    split
    · next h =>
      -- What is found in a repetition was found at its first occurrence.
      cases hb : f a with
      | none => rw [ih, List.filterMap_cons_none hb, List.filterMap_nil, List.append_nil]
      | some b =>
        have hmem : b ∈ as.filterMap f := List.mem_filterMap.2 ⟨a, h, hb⟩
        rw [ih, List.filterMap_cons_some hb, List.filterMap_nil, eraseDups_concat, if_pos hmem]
    · rw [List.filterMap_append, List.eraseDups_append, List.eraseDups_append, ih]
      congr 2
      simp [List.removeAll]

/-- A further element is a new one unless it is there already. -/
theorem append_eraseDups_filter_concat (old new : List α) (a : α) :
    old ++ ((new ++ [a]).filter (· ∉ old)).eraseDups =
      if a ∈ old ++ (new.filter (· ∉ old)).eraseDups
      then old ++ (new.filter (· ∉ old)).eraseDups
      else old ++ (new.filter (· ∉ old)).eraseDups ++ [a] := by
  rw [List.filter_append]
  by_cases hold : a ∈ old
  · rw [if_pos (List.mem_append_left _ hold)]
    simp [hold]
  · have hsingle : [a].filter (· ∉ old) = [a] := by simp [hold]
    rw [hsingle, eraseDups_concat]
    by_cases hnew : a ∈ new.filter (· ∉ old)
    · rw [if_pos hnew, if_pos (List.mem_append_right _ (List.mem_eraseDups.2 hnew))]
    · have hnot : a ∉ old ++ (new.filter (· ∉ old)).eraseDups := by
        rw [List.mem_append, List.mem_eraseDups, not_or]
        exact ⟨hold, hnew⟩
      rw [if_neg hnew, if_neg hnot, List.append_assoc]

end EraseDups

end Mockup
