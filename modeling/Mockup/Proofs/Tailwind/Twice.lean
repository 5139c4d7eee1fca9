import Mockup.Proofs.Tailwind.ClassList
import Mockup.Proofs.Text.Words

/-!
# Edits of class lists made twice

An edit of a class list that is made a second time changes nothing more. Tokens that are put in the
place of one may have that one among them, so the second edit meets it again: what it puts there is
there already.

## Main results

* `add_add`, `remove_remove`, `replace_replace`: the second time nothing changes.
* `parse_text`: the text of a list of words is read as that list.
-/

namespace Mockup.Tailwind.ClassList

variable {l m j k : ClassList} {token : String} {tokens : List String}

theorem push_of_mem (h : token ∈ l.tokens) : l.push token = l := by
  rw [push, dif_pos h]

theorem tokens_push_of_not_mem (h : token ∉ l.tokens) :
    (l.push token).tokens = l.tokens ++ [token] := by
  rw [push, dif_neg h]

theorem pushAll_cons (l : ClassList) (token : String) (tokens : List String) :
    l.pushAll (token :: tokens) = (l.push token).pushAll tokens :=
  rfl

theorem pushAll_append (l : ClassList) (ss ts : List String) :
    l.pushAll (ss ++ ts) = (l.pushAll ss).pushAll ts :=
  List.foldl_append

/-- Adding tokens that are there already changes nothing. -/
theorem pushAll_of_subset (h : ∀ t ∈ tokens, t ∈ l.tokens) : l.pushAll tokens = l := by
  induction tokens with
  | nil => rfl
  | cons t ts ih =>
    obtain ⟨ht, hts⟩ := List.forall_mem_cons.1 h
    rw [pushAll_cons, push_of_mem ht, ih hts]

/-- New tokens are added in order. -/
theorem tokens_pushAll (h : (l.tokens ++ tokens).Nodup) :
    (l.pushAll tokens).tokens = l.tokens ++ tokens := by
  induction tokens generalizing l with
  | nil => exact (List.append_nil _).symm
  | cons t ts ih =>
    have hnot : t ∉ l.tokens := fun hmem =>
      (List.nodup_append.1 h).2.2 t hmem t List.mem_cons_self rfl
    have htokens := tokens_push_of_not_mem hnot
    have hnext : ((l.push t).tokens ++ ts).Nodup := by
      rwa [htokens, List.append_assoc]
    rw [pushAll_cons, ih hnext, htokens, List.append_assoc]
    rfl

theorem tokens_ofTokens (h : tokens.Nodup) : (ofTokens tokens).tokens = tokens :=
  tokens_pushAll (l := empty) h

/-- Tokens may be added again to what was reached on the way. -/
theorem pushAll_of_between (hj : j.tokens <+: l.tokens)
    (hl : l.tokens <+: (j.pushAll tokens).tokens) :
    l.pushAll tokens = j.pushAll tokens := by
  induction tokens generalizing j l with
  | nil => exact ext (hl.eq_of_length_le hj.length_le)
  | cons t ts ih =>
    rw [pushAll_cons] at hl
    rw [pushAll_cons, pushAll_cons]
    have hpush : (j.push t).tokens <+: ((j.push t).pushAll ts).tokens := isPrefix_pushAll _ _
    rcases Nat.lt_or_ge j.tokens.length l.tokens.length with hlt | hle
    · -- The list went on after `j`, so it has the token already.
      have hnext : (j.push t).tokens <+: l.tokens := by
        refine List.prefix_of_prefix_length_le hpush hl ?_
        unfold push
        split
        · exact Nat.le_of_lt hlt
        · rw [List.length_append]
          exact hlt
      have hmem : t ∈ l.tokens := hnext.subset (mem_push.2 (.inr rfl))
      rw [push_of_mem hmem]
      exact ih hnext hl
    · rw [ext (hj.eq_of_length_le hle)]

/-! ### Edits made twice -/

theorem add_add (l : ClassList) (classes : String) : (l.add classes).add classes = l.add classes :=
  pushAll_of_subset fun _ ht => mem_pushAll.2 (.inr ht)

theorem remove_remove (l : ClassList) (classes : String) :
    (l.remove classes).remove classes = l.remove classes := by
  refine ext ?_
  simp [remove, List.filter_filter]

/-- Tokens in the place of one that is in the middle. -/
theorem flatMap_replaced {old : String} {front back new : List String} (hfront : old ∉ front)
    (hback : old ∉ back) :
    (front ++ old :: back).flatMap (fun t => if t = old then new else [t]) =
      front ++ (new ++ back) := by
  have keep {ts : List String} (h : old ∉ ts) :
      ts.flatMap (fun t => if t = old then new else [t]) = ts := by
    induction ts with
    | nil => rfl
    | cons t ts ih =>
      have hne : t ≠ old := fun heq => h (heq ▸ List.mem_cons_self)
      rw [List.flatMap_cons, if_neg hne, ih fun hmem => h (List.mem_cons_of_mem _ hmem)]
      rfl
  rw [List.flatMap_append, List.flatMap_cons, if_pos rfl, keep hfront, keep hback]

/-- The list with tokens in the place of one of its tokens. -/
def substitute (l : ClassList) (old : String) (new : List String) : ClassList :=
  ofTokens (l.tokens.flatMap fun t => if t = old then new else [t])

/-- A replacement is a substitution, if there is something to replace. -/
theorem replace_eq (l : ClassList) (old new : String) : l.replace old new =
    if (Text.trim old).isEmpty || !l.contains (Text.trim old) then l
    else l.substitute (Text.trim old) (Text.words new) :=
  rfl

/-- With tokens in the place of one a list holds no others than those and its own. -/
theorem mem_or_mem_of_mem_replace {old new : String} (h : token ∈ (l.replace old new).tokens) :
    token ∈ l.tokens ∨ token ∈ Text.words new := by
  rw [replace_eq] at h
  split at h
  · exact .inl h
  · rw [substitute, ofTokens, mem_pushAll, List.mem_flatMap] at h
    rcases h with h | ⟨t, ht, htoken⟩
    · exact absurd h List.not_mem_nil
    · split at htoken
      · exact .inr htoken
      · obtain rfl := List.mem_singleton.1 htoken
        exact .inl ht

theorem substitute_eq {old : String} {front back new : List String}
    (h : l.tokens = front ++ old :: back) :
    l.substitute old new = ((ofTokens front).pushAll new).pushAll back := by
  have hnodup := List.nodup_append.1 (h ▸ l.nodup)
  have hfront : old ∉ front := fun hmem => hnodup.2.2 old hmem old List.mem_cons_self rfl
  have hback : old ∉ back := (List.nodup_cons.1 hnodup.2.1).1
  rw [substitute, h, flatMap_replaced hfront hback, ofTokens, pushAll_append, pushAll_append]
  rfl

/-- Tokens in the place of one that is among them change nothing the second time. -/
theorem substitute_substitute {old : String} {new : List String} (hold : old ∈ l.tokens)
    (h : old ∈ (l.substitute old new).tokens) :
    (l.substitute old new).substitute old new = l.substitute old new := by
  -- The list after the first time is made in three parts: the tokens before the old one, what was
  -- put in its place as far as it is new, and the tokens after it as far as they are left.
  obtain ⟨front, back, htokens, hfront⟩ := List.eq_append_cons_of_mem hold
  have hnodup := List.nodup_append.1 (htokens ▸ l.nodup)
  have hback : old ∉ back := (List.nodup_cons.1 hnodup.2.1).1
  have htokensFront : (ofTokens front).tokens = front := tokens_ofTokens hnodup.1
  let mid := (ofTokens front).pushAll new
  have hsubstitute : l.substitute old new = mid.pushAll back := substitute_eq htokens
  obtain ⟨more, hmore⟩ : (ofTokens front).tokens <+: mid.tokens := isPrefix_pushAll _ _
  obtain ⟨rest, hrest⟩ : mid.tokens <+: (mid.pushAll back).tokens := isPrefix_pushAll _ _
  rw [htokensFront] at hmore
  -- The old token is one of those that were added in its place.
  have hmem : old ∈ more := by
    rw [hsubstitute, mem_pushAll, ← hmore, List.mem_append] at h
    rcases h with (h | h) | h
    · exact absurd h hfront
    · exact h
    · exact absurd h hback
  obtain ⟨before, after, hsplit, -⟩ := List.eq_append_cons_of_mem hmem
  have hmid : mid.tokens = front ++ before ++ old :: after := by
    rw [← hmore, hsplit, List.append_assoc]
  have hwhole : (l.substitute old new).tokens = front ++ before ++ old :: (after ++ rest) := by
    rw [hsubstitute, ← hrest, hmid, List.append_assoc, List.cons_append]
  have hstart : (ofTokens (front ++ before)).tokens = front ++ before :=
    tokens_ofTokens (List.nodup_append.1 (hmid ▸ mid.nodup)).1
  -- The second time the same tokens are put after a part of what they made.
  have hagain : (ofTokens (front ++ before)).pushAll new = mid := by
    refine pushAll_of_between ?_ ?_
    · rw [htokensFront, hstart]
      exact List.prefix_append _ _
    · rw [hstart, show ((ofTokens front).pushAll new).tokens = _ from hmid]
      exact List.prefix_append _ _
  have hafter : ∀ t ∈ after, t ∈ mid.tokens := fun t ht => by
    rw [hmid]
    exact List.mem_append_right _ (List.mem_cons_of_mem _ ht)
  have hlast : mid.pushAll rest = mid.pushAll back := by
    refine ext ?_
    rw [← hrest]
    exact tokens_pushAll (hrest ▸ (mid.pushAll back).nodup)
  rw [substitute_eq hwhole, hagain, pushAll_append, pushAll_of_subset hafter, hlast, hsubstitute]

/-- Putting tokens in the place of one twice is the same as doing it once, also if the old token is
one of the new ones. -/
theorem replace_replace (l : ClassList) (old new : String) :
    (l.replace old new).replace old new = l.replace old new := by
  by_cases hkeep : ((Text.trim old).isEmpty || !l.contains (Text.trim old)) = true
  · have hl : l.replace old new = l := by rw [replace_eq, if_pos hkeep]
    rw [hl, hl]
  · have hl : l.replace old new = l.substitute (Text.trim old) (Text.words new) := by
      rw [replace_eq, if_neg hkeep]
    rw [hl, replace_eq]
    split
    · rfl
    · next hagain =>
      simp only [Bool.or_eq_true, Bool.not_eq_true', not_or, Bool.not_eq_false, contains,
        List.contains_iff_mem] at hkeep hagain
      exact substitute_substitute hkeep.2 hagain.2

/-! ### Reading a list back -/

/-- The text of a list of words is read as that list. -/
theorem parse_text {l : ClassList} (h : ∀ t ∈ l.tokens, Text.IsWord t) : parse l.text = l := by
  refine ext ?_
  rw [parse, text, Text.words_intercalate_of_isWord h]
  exact tokens_ofTokens l.nodup

theorem isWord_of_mem_parse {value t : String} (h : t ∈ (parse value).tokens) : Text.IsWord t :=
  Text.isWord_of_mem_words (mem_parse.1 h)

end Mockup.Tailwind.ClassList
