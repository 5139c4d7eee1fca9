import Mathlib.Data.List.Basic

/-!
# Replaced characters

Replacing a character in a string is a search for it, which finds every place where it stands. So
the characters of the result are those of the string with the character replaced in each place.
Several replacements, one after the other, are a substitution in one pass if none of them replaces
what an earlier one wrote.

* `replaced c t cs` — the text `cs` with `t` in every place of `c`.
* `substituted table c` — what a table of replacements puts in the place of `c`.

## Main results

* `toList_replace`: the characters of a string in which a character is replaced.
* `toList_foldl_replace`: replacements, one after the other, are a substitution.
-/

namespace Mockup.Text

open String.Slice String.Slice.Pattern String.Slice.Pattern.Model

/-- A text in which `t` stands wherever the character `c` stood. -/
def replaced (c : Char) (t cs : List Char) : List Char :=
  cs.flatMap fun d => if d = c then t else [d]

theorem replaced_append (c : Char) (t cs ds : List Char) :
    replaced c t (cs ++ ds) = replaced c t cs ++ replaced c t ds :=
  List.flatMap_append

theorem replaced_cons_self (c : Char) (t cs : List Char) :
    replaced c t (c :: cs) = t ++ replaced c t cs := by
  rw [replaced, List.flatMap_cons, if_pos rfl, replaced]

theorem replaced_of_notMem {c : Char} {cs : List Char} (h : c ∉ cs) (t : List Char) :
    replaced c t cs = cs := by
  induction cs with
  | nil => rfl
  | cons d cs ih =>
    rw [replaced, List.flatMap_cons, if_neg (List.ne_of_not_mem_cons h).symm, ← replaced,
      ih (List.not_mem_of_not_mem_cons h)]
    rfl

/-! ### The search for a character -/

section Search

variable {s : String.Slice} {p q : s.Pos} {c : Char}

/-- A character that is found at no place of a part does not stand in it. -/
theorem notMem_copy_slice (hle : p ≤ q) (h : ∀ r, p ≤ r → r < q → ¬ MatchesAt c r) :
    c ∉ (s.slice p q hle).copy.toList := by
  intro hmem
  obtain ⟨r, hr, hget⟩ := mem_toList_copy_iff_exists_get.1 hmem
  have hlt : Pos.ofSlice r < q := by
    simpa [← Pos.lt_endPos_iff, ← Pos.ofSlice_lt_ofSlice_iff] using hr
  rw [Pos.get_eq_get_ofSlice] at hget
  exact h _ Pos.le_ofSlice hlt (Char.matchesAt_iff.2 ⟨_, hget⟩)

/-- What is left at a place is its character and what is left behind it. -/
theorem toList_copy_sliceFrom_next (hp : p ≠ s.endPos) :
    (s.sliceFrom p).copy.toList = p.get hp :: (s.sliceFrom (p.next hp)).copy.toList := by
  rw [p.splits.eq_right (p.splits_next_right hp), String.toList_append, String.toList_singleton,
    List.singleton_append]

/-- What is left at a place is the part up to a later place and what is left there. -/
theorem copy_sliceFrom_of_le (hle : p ≤ q) :
    (s.sliceFrom p).copy = (s.slice p q hle).copy ++ (s.sliceFrom q).copy := by
  obtain ⟨_, _, hp, hq⟩ := copy_slice_eq_iff_splits.1 ⟨hle, rfl⟩
  rw [p.splits.eq_right hp, q.splits.eq_right hq]

/-- The text so far with what a step of a search adds to it. -/
def replaceStep (t : String) (done : String) : SearchStep s → String
  | .matched .. => done ++ t.toSlice
  | .rejected p q => done ++ s.slice! p q

/-- The steps of a search from a place on add what is left there, with the character replaced. -/
theorem toList_foldl_replaceStep {steps : List (SearchStep s)} (h : IsValidSearchFrom c p steps)
    (t done : String) :
    (steps.foldl (replaceStep t) done).toList =
      done.toList ++ replaced c t.toList (s.sliceFrom p).copy.toList := by
  induction h generalizing done with
  | endPos => simp [replaced]
  | @matched _ p q hmatch _ ih =>
    obtain ⟨hp, rfl, rfl⟩ := Char.isLongestMatchAt_iff.1 hmatch
    rw [List.foldl_cons, ih, toList_copy_sliceFrom_next hp, replaced_cons_self]
    simp [replaceStep]
  | @mismatched _ p q hlt hnone _ ih =>
    have hle := Std.le_of_lt hlt
    rw [List.foldl_cons, ih, copy_sliceFrom_of_le hle, String.toList_append, replaced_append,
      replaced_of_notMem (notMem_copy_slice hle hnone)]
    simp [replaceStep, slice!, hle]

end Search

/-- Replacing a character is a search for it. -/
theorem replace_eq_foldl (s : String) (c : Char) (t : String) :
    s.replace c t = (ToForwardSearcher.toSearcher c s.toSlice).toList.foldl (replaceStep t) "" := by
  rw [String.replace, String.Slice.replace, Std.Iter.foldl_toList]
  congr
  funext done step
  cases step <;> rfl

/-- The characters of a string in which a character is replaced. -/
theorem toList_replace (s : String) (c : Char) (t : String) :
    (s.replace c t).toList = replaced c t.toList s.toList := by
  have hvalid : IsValidSearchFrom c s.toSlice.startPos
      (ToForwardSearcher.toSearcher c s.toSlice).toList :=
    LawfulToForwardSearcherModel.isValidSearchFrom_toList s.toSlice
  rw [replace_eq_foldl, toList_foldl_replaceStep hvalid]
  simp

/-! ### Several replacements -/

/-- What a table of replacements puts in the place of a character: the first entry counts. -/
def substituted (table : List (Char × String)) (c : Char) : List Char :=
  (table.lookup c).elim [c] String.toList

/-- A character that is in no entry of a table is left as it is. -/
theorem substituted_of_notMem {table : List (Char × String)} {c : Char}
    (h : ∀ r ∈ table, c ≠ r.1) : substituted table c = [c] := by
  have hnone : table.lookup c = none :=
    List.lookup_eq_none_iff.2 fun r hr => bne_iff_ne.2 (h r hr)
  rw [substituted, hnone, Option.elim_none]

/-- A text without the characters of a table is left as it is. -/
theorem flatMap_substituted_of_notMem {table : List (Char × String)} {cs : List Char}
    (h : ∀ r ∈ table, r.1 ∉ cs) : cs.flatMap (substituted table) = cs := by
  have hself : ∀ c ∈ cs, substituted table c = [c] := fun c hc =>
    substituted_of_notMem fun r hr => ne_of_mem_of_not_mem hc (h r hr)
  rw [List.flatMap_congr hself, List.flatMap_singleton']

/-- Replacements, one after the other, are a substitution in one pass if no character is replaced
that an earlier one of them has written. -/
theorem toList_foldl_replace {table : List (Char × String)}
    (h : table.Pairwise fun earlier later => later.1 ∉ earlier.2.toList) (s : String) :
    (table.foldl (fun s (c, t) => s.replace c t) s).toList =
      s.toList.flatMap (substituted table) := by
  induction table generalizing s with
  | nil => exact (flatMap_substituted_of_notMem (List.forall_mem_nil _)).symm
  | cons r table ih =>
    obtain ⟨hlater, htable⟩ := List.pairwise_cons.1 h
    rw [List.foldl_cons, ih htable, toList_replace, replaced, List.flatMap_assoc]
    refine List.flatMap_congr fun d _ => ?_
    -- What was written for `d` is left alone; another character meets the later entries.
    by_cases hd : d = r.1
    · rw [if_pos hd, flatMap_substituted_of_notMem hlater, substituted, hd, List.lookup_cons_self]
      rfl
    · rw [if_neg hd, List.flatMap_singleton, substituted, substituted, List.lookup_cons,
        beq_eq_false_iff_ne.2 hd]

/-- The order counts: an ampersand that a reference brings in is replaced if it comes later. -/
example : replaced '&' "&amp;".toList (replaced '<' "&lt;".toList ['<']) = "&amp;lt;".toList := by
  decide

end Mockup.Text
