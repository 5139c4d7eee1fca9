import Mockup.Proofs.Text.Span
import Mockup.Text.Split

/-!
# Slices of a text

A slice between two boundaries stands between what is before it and what is after it. It is the same
in every text that agrees up to its end, and in every text that agrees from its start on if it is
moved with that text.

## Main results

* `length_le_of_splitAt?`: a pattern is found at its first place.
* `IsBoundary.exists_slice`, `IsBoundary.exists_replace`: a text is cut at two boundaries, and a
  text is put between them.
* `slice_append_slice`, `slice_infix`: slices side by side, and a slice inside another one.
* `slice_append_of_le`, `slice_append_add`: slices before and after an end of another text.
-/

namespace Mockup.Text

/-- A cut loses nothing, also one inside a character. -/
theorem takeBytes_append_dropBytes (n : Nat) (cs : List Char) :
    takeBytes n cs ++ dropBytes n cs = cs := by
  induction cs generalizing n with
  | nil => rfl
  | cons c cs ih =>
    simp only [takeBytes, dropBytes]
    split
    · rfl
    · rw [List.cons_append, ih]

/-- A text is found in another one exactly if it is part of it. -/
theorem contains_iff {pattern cs : List Char} : contains pattern cs = true ↔ pattern <:+: cs := by
  rw [contains, Option.isSome_iff_exists]
  constructor
  · rintro ⟨⟨before, after⟩, h⟩
    exact ⟨before, after, (eq_append_of_splitAt? h).symm⟩
  · intro h
    induction cs with
    | nil =>
      obtain rfl := List.infix_nil.1 h
      exact ⟨([], []), rfl⟩
    | cons c cs ih =>
      by_cases hprefix : pattern.isPrefixOf (c :: cs) = true
      · exact ⟨_, by rw [splitAt?, if_pos hprefix]⟩
      · rcases List.infix_cons_iff.1 h with h | h
        · exact absurd (List.isPrefixOf_iff_prefix.2 h) hprefix
        · obtain ⟨parts, hparts⟩ := ih h
          exact ⟨_, by rw [splitAt?, if_neg hprefix, hparts, Option.map_some]⟩

/-- A text is split at the first place where the pattern stands. -/
theorem length_le_of_splitAt? {pattern cs before after front back : List Char}
    (h : splitAt? pattern cs = some (before, after)) (hcs : cs = front ++ pattern ++ back) :
    before.length ≤ front.length := by
  induction cs generalizing before after front with
  | nil =>
    have hnil := congrArg List.length (eq_append_of_splitAt? h)
    simp only [List.length_nil, List.length_append] at hnil
    omega
  | cons c cs ih =>
    unfold splitAt? at h
    split at h
    · simp only [Option.some.injEq, Prod.mk.injEq] at h
      simp [← h.1]
    · next hprefix =>
      obtain ⟨⟨before', after'⟩, hsplit, heq⟩ := Option.map_eq_some_iff.1 h
      simp only [Prod.mk.injEq] at heq
      obtain ⟨rfl, -⟩ := heq
      -- The pattern does not stand at the beginning, so there is a character before it.
      cases front with
      | nil => exact absurd (List.isPrefixOf_iff_prefix.2 ⟨back, hcs.symm⟩) hprefix
      | cons d front => exact Nat.succ_le_succ (ih hsplit (List.cons.inj hcs).2)

section Slice

variable {source : List Char} {start stop start' stop' : Nat}

/-- A text is cut at two boundaries. -/
theorem IsBoundary.exists_slice (hstart : IsBoundary source start) (hstop : IsBoundary source stop)
    (h : start ≤ stop) : ∃ before after, source = before ++ slice start stop source ++ after ∧
      byteLength before = start ∧ byteLength (before ++ slice start stop source) = stop := by
  obtain ⟨before, rest, hsource, rfl⟩ := hstart
  obtain ⟨through, after, hsource', rfl⟩ := hstop
  -- The text before the first boundary begins the text before the second one.
  have hprefix : before <+: through := by
    have hbefore : before <+: source := ⟨rest, hsource.symm⟩
    have hthrough : through <+: source := ⟨after, hsource'.symm⟩
    rcases List.prefix_or_prefix_of_prefix hbefore hthrough with hle | ⟨more, hmore⟩
    · exact hle
    · have hempty : more = [] := by
        refine eq_nil_of_byteLength_eq_zero ?_
        rw [← hmore, byteLength_append] at h
        omega
      exact ⟨[], by rw [List.append_nil, ← hmore, hempty, List.append_nil]⟩
  obtain ⟨part, rfl⟩ := hprefix
  have hslice : slice (byteLength before) (byteLength (before ++ part)) source = part := by
    rw [hsource', byteLength_append]
    exact slice_append before part after
  exact ⟨before, after, by rw [hslice, hsource'], rfl, by rw [hslice]⟩

/-- A text that is put between two boundaries stands in the place of their slice. -/
theorem IsBoundary.exists_replace (hstart : IsBoundary source start)
    (hstop : IsBoundary source stop) (h : start ≤ stop) (text : List Char) :
    ∃ front back, source = front ++ slice start stop source ++ back ∧
      takeBytes start source ++ text ++ dropBytes stop source = front ++ text ++ back ∧
      byteLength front = start ∧ byteLength (front ++ slice start stop source) = stop := by
  obtain ⟨front, back, hsource, hfront, hold⟩ := hstart.exists_slice hstop h
  refine ⟨front, back, hsource, ?_, hfront, hold⟩
  generalize slice start stop source = old at hsource hold
  rw [← hold, ← hfront, hsource, dropBytes_append, List.append_assoc front old,
    takeBytes_append]

/-- A slice up to a boundary and one from that boundary on make up a slice. -/
theorem slice_append_slice {mid : Nat} (hstart : IsBoundary source start)
    (hmid : IsBoundary source mid) (hstop : IsBoundary source stop) (h : start ≤ mid)
    (h' : mid ≤ stop) :
    slice start mid source ++ slice mid stop source = slice start stop source := by
  obtain ⟨before, rest, hsource, rfl, hbefore⟩ := hstart.exists_slice hmid h
  obtain ⟨through, after, hsource', hthrough, hstop⟩ := hmid.exists_slice hstop h'
  generalize slice (byteLength before) mid source = part at *
  generalize slice mid stop source = part' at *
  have hsplit : through = before ++ part := by
    rw [hsource', List.append_assoc] at hsource
    exact (append_inj_of_byteLength hsource (hthrough.trans hbefore.symm)).1
  rw [← hstop, hsource', hsplit, List.append_assoc before, byteLength_append, slice_append]

/-- A slice is part of every slice around it. -/
theorem slice_infix (hstart : IsBoundary source start) (hstop : IsBoundary source stop)
    (hstart' : IsBoundary source start') (hstop' : IsBoundary source stop') (h : start' ≤ start)
    (hle : start ≤ stop) (h' : stop ≤ stop') :
    slice start stop source <:+: slice start' stop' source := by
  -- The outer slice is cut at the two ends of the inner one.
  rw [← slice_append_slice hstart' hstart hstop' h (Nat.le_trans hle h'),
    ← slice_append_slice hstart hstop hstop' hle h', ← List.append_assoc]
  exact List.infix_append _ _ _

/-- A slice up to the end of a first text does not need what follows. -/
theorem slice_append_of_le {front : List Char} (hstart : IsBoundary (front ++ source) start)
    (h : start ≤ stop) (hle : stop ≤ byteLength front) (rest : List Char) :
    slice start stop (front ++ rest) = slice start stop (front ++ source) := by
  have hboundary : IsBoundary (front ++ source) (byteLength front) := ⟨front, source, rfl, rfl⟩
  obtain ⟨before, after, hsource, rfl, hfront⟩ :=
    hstart.exists_slice hboundary (Nat.le_trans h hle)
  obtain ⟨hsplit, -⟩ := append_inj_of_byteLength hsource hfront.symm
  generalize slice (byteLength before) (byteLength front) (front ++ source) = part at hsplit
  have hpart : stop - byteLength before ≤ byteLength part := by
    rw [hsplit, byteLength_append] at hle
    omega
  rw [slice, slice, hsplit, List.append_assoc, List.append_assoc, dropBytes_append,
    dropBytes_append, takeBytes_append_of_le hpart, takeBytes_append_of_le hpart]

/-- A slice after a first text moves with the text that it is in. -/
theorem slice_append_add (front source : List Char) (start stop : Nat) :
    slice (byteLength front + start) (byteLength front + stop) (front ++ source) =
      slice start stop source := by
  have hdrop : dropBytes (byteLength front + start) (front ++ source) = dropBytes start source := by
    induction front with
    | nil => simp
    | cons c cs ih =>
      have hpos := c.utf8Size_pos
      rw [List.cons_append, dropBytes, byteLength_cons, if_neg (by omega), ← ih]
      congr 1
      omega
  rw [slice, slice, hdrop, Nat.add_sub_add_left]

end Slice

end Mockup.Text
