import Mockup.Proofs.Text.Words

/-!
# Texts with single spaces

A text whose words stand one space apart is not changed when its words are taken out and joined
again, except that blanks at its two ends are lost.

* `isSingleSpaced cs` — each blank in a text, the last character apart, is a space and has no blank
  after it.

## Main results

* `collapsed_append_of_isSingleSpaced`: collapsing such a text is trimming it, whatever blanks
  follow.
-/

namespace Mockup.Text

/-- Whether each blank that another character follows is a space, and the other one no blank. -/
def isSingleSpaced : List Char → Bool
  | [] => true
  | [_] => true
  | c :: d :: cs => (!isBlank c || (c == ' ' && !isBlank d)) && isSingleSpaced (d :: cs)

theorem isSingleSpaced_of_append {front cs : List Char} (h : isSingleSpaced (front ++ cs) = true) :
    isSingleSpaced cs = true := by
  induction front with
  | nil => exact h
  | cons c front ih =>
    cases hrest : front ++ cs with
    | nil =>
      obtain ⟨-, rfl⟩ := List.append_eq_nil_iff.1 hrest
      rfl
    | cons d rest =>
      rw [List.cons_append, hrest, isSingleSpaced, ← hrest] at h
      exact ih (Bool.and_eq_true_iff.1 h).2

/-! ### Trimmed texts -/

/-- Neither the first nor the last character of a text is a blank. -/
structure IsTrimmed (cs : List Char) : Prop where
  /-- The first character. -/
  head : ∀ c ∈ cs.head?, isBlank c = false
  /-- The last character. -/
  last : ∀ c ∈ cs.getLast?, isBlank c = false

/-- The first character that is left is no blank. -/
theorem isBlank_of_mem_head?_dropWhile (cs : List Char) :
    ∀ c ∈ (cs.dropWhile isBlank).head?, isBlank c = false := by
  intro c hc
  have h := List.head?_dropWhile_not isBlank cs
  rwa [hc] at h

theorem isTrimmed_trimmed (cs : List Char) : IsTrimmed (trimmed cs) := by
  have hprefix : trimmed cs <+: cs.dropWhile isBlank := by
    rw [trimmed, dropTrailing, ← List.reverse_suffix, List.reverse_reverse]
    exact List.dropWhile_suffix isBlank
  refine ⟨fun c hc => ?_, fun c hc => ?_⟩
  · obtain ⟨trail, htrail⟩ := hprefix
    refine isBlank_of_mem_head?_dropWhile cs c ?_
    rw [← htrail, List.head?_append, hc]
    rfl
  · rw [trimmed, dropTrailing, List.getLast?_reverse] at hc
    exact isBlank_of_mem_head?_dropWhile _ c hc

/-- Nothing is left of a blank text. -/
theorem trim_of_isAllBlank {s : String} (h : isAllBlank s = true) : trim s = "" := by
  rw [trim, trimmed, List.dropWhile_eq_nil_iff.2 (List.all_eq_true.1 h)]
  rfl

/-! ### Words -/

/-- A text of blanks has no words. -/
theorem wordsOf_of_blank {cs : List Char} (h : ∀ c ∈ cs, isBlank c = true) : wordsOf cs = [] := by
  induction cs with
  | nil => rfl
  | cons c cs ih =>
    obtain ⟨hc, hcs⟩ := List.forall_mem_cons.1 h
    rw [wordsOf, pieces, if_pos hc]
    exact ih hcs

/-- Blanks in front of a text do not change its words. -/
theorem wordsOf_append_of_blank {lead : List Char} (h : ∀ c ∈ lead, isBlank c = true)
    (cs : List Char) : wordsOf (lead ++ cs) = wordsOf cs := by
  induction lead with
  | nil => rfl
  | cons c lead ih =>
    obtain ⟨hc, hlead⟩ := List.forall_mem_cons.1 h
    rw [List.cons_append, wordsOf, pieces, if_pos hc]
    exact ih hlead

/-- A word in front of a blank is the first word. -/
theorem wordsOf_append_cons {w : List Char} (hne : w ≠ []) (hw : ∀ c ∈ w, isBlank c = false)
    {d : Char} (hd : isBlank d = true) (cs : List Char) :
    wordsOf (w ++ d :: cs) = w :: wordsOf cs := by
  rw [wordsOf, pieces_append hw hd, List.filter_cons_of_pos (by simpa using hne), wordsOf]

/-- A word with blanks after it is the only word. -/
theorem wordsOf_append_of_blank_right {w trail : List Char} (hne : w ≠ [])
    (hw : ∀ c ∈ w, isBlank c = false) (htrail : ∀ c ∈ trail, isBlank c = true) :
    wordsOf (w ++ trail) = [w] := by
  cases trail with
  | nil =>
    rw [List.append_nil, wordsOf, pieces_eq_singleton hw,
      List.filter_cons_of_pos (by simpa using hne), List.filter_nil]
  | cons d trail =>
    obtain ⟨hd, htrail⟩ := List.forall_mem_cons.1 htrail
    rw [wordsOf_append_cons hne hw hd, wordsOf_of_blank htrail]

/-- A trimmed text with single spaces is a word, or a word and a space before a text of the same
kind. -/
theorem exists_eq_word_append {core : List Char} (hne : core ≠ []) (htrimmed : IsTrimmed core)
    (hspaced : isSingleSpaced core = true) :
    ∃ w, w ≠ [] ∧ (∀ c ∈ w, isBlank c = false) ∧ (core = w ∨ ∃ rest, core = w ++ ' ' :: rest ∧
      rest ≠ [] ∧ IsTrimmed rest ∧ isSingleSpaced rest = true) := by
  let w := core.takeWhile fun c => !isBlank c
  have hcore : w ++ core.dropWhile (fun c => !isBlank c) = core := List.takeWhile_append_dropWhile
  have hw : ∀ c ∈ w, isBlank c = false := fun c hc => by
    simpa using List.mem_takeWhile_imp hc
  have hwne : w ≠ [] := by
    obtain ⟨c, cs, rfl⟩ := List.exists_cons_of_ne_nil hne
    have hc : isBlank c = false := htrimmed.head c rfl
    simp [w, hc]
  refine ⟨w, hwne, hw, ?_⟩
  cases hrest : core.dropWhile (fun c => !isBlank c) with
  | nil =>
    rw [hrest, List.append_nil] at hcore
    exact .inl hcore.symm
  | cons d rest =>
    rw [hrest] at hcore
    have hd : isBlank d = true := by
      have h := List.head?_dropWhile_not (fun c => !isBlank c) core
      rw [hrest] at h
      simpa using h
    cases rest with
    | nil =>
      -- A blank at the end would have been trimmed.
      have hlast := htrimmed.last d (by rw [← hcore]; simp)
      rw [hd] at hlast
      cases hlast
    | cons e rest =>
      have hafter : isSingleSpaced (d :: e :: rest) = true := by
        rw [← hcore] at hspaced
        exact isSingleSpaced_of_append hspaced
      rw [isSingleSpaced, hd] at hafter
      simp only [Bool.not_true, Bool.false_or, Bool.and_eq_true, beq_iff_eq,
        Bool.not_eq_true'] at hafter
      obtain ⟨⟨rfl, he⟩, hspaced⟩ := hafter
      have hlast : ∀ c ∈ (e :: rest).getLast?, isBlank c = false := by
        intro c hc
        refine htrimmed.last c ?_
        rw [← hcore, List.getLast?_append, List.getLast?_cons_cons, hc]
        rfl
      exact .inr ⟨e :: rest, hcore.symm, List.cons_ne_nil e rest,
        ⟨by rintro _ ⟨⟩; exact he, hlast⟩, hspaced⟩

/-- The words of a trimmed text with single spaces make up the text. The induction is on its length:
its first word is followed by one space and a shorter text of the same kind. -/
theorem intercalate_wordsOf {core trail : List Char} (htrimmed : IsTrimmed core)
    (hspaced : isSingleSpaced core = true) (htrail : ∀ c ∈ trail, isBlank c = true) :
    [' '].intercalate (wordsOf (core ++ trail)) = core := by
  induction hlength : core.length using Nat.strongRecOn generalizing core with
  | ind n ih =>
  by_cases hnil : core = []
  · rw [hnil, List.nil_append, wordsOf_of_blank htrail]
    rfl
  obtain ⟨w, hne, hw, rfl | ⟨rest, rfl, hrest, htrimmed, hspaced⟩⟩ :=
    exists_eq_word_append hnil htrimmed hspaced
  · rw [wordsOf_append_of_blank_right hne hw htrail]
    exact List.append_nil core
  · have hjoin := ih rest.length (by simp at hlength; omega) htrimmed hspaced rfl
    have hwords : wordsOf (rest ++ trail) ≠ [] := by
      intro hempty
      rw [hempty] at hjoin
      exact hrest hjoin.symm
    rw [List.append_assoc, List.cons_append, wordsOf_append_cons hne hw rfl,
      List.intercalate_cons_of_ne_nil hwords, hjoin, List.append_assoc]
    rfl

/-- Collapsing a text with single spaces between blanks is trimming it. -/
theorem collapsed_append_of_isSingleSpaced {s trail : String}
    (hspaced : isSingleSpaced (trimmed s.toList) = true)
    (htrail : ∀ c ∈ trail.toList, isBlank c = true) : collapsed (s ++ trail) = trim s := by
  obtain ⟨lead, back, heq, hlead, hback⟩ := exists_eq_append_trimmed s.toList
  have htail : ∀ c ∈ back ++ trail.toList, isBlank c = true :=
    List.forall_mem_append.2 ⟨hback, htrail⟩
  have hchars : (s ++ trail).toList =
      lead ++ (trimmed s.toList ++ (back ++ trail.toList)) := by
    rw [String.toList_append, ← List.append_assoc (trimmed s.toList), ← List.append_assoc lead,
      ← heq]
  have hid : String.toList ∘ String.ofList = id := funext fun cs => String.toList_ofList
  apply String.toList_injective
  rw [collapsed, String.toList_intercalate, words, List.map_map, hid, List.map_id, hchars,
    wordsOf_append_of_blank hlead, trim]
  exact (intercalate_wordsOf (isTrimmed_trimmed _) hspaced htail).trans String.toList_ofList.symm

end Mockup.Text
