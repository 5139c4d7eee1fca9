import Mockup.Proofs.Distinct
import Mockup.Proofs.Tailwind.Twice

/-!
# What edits make of a class list

However a class list was edited, its tokens are different words, so its text is read as the same
list. Added tokens come last and replacing ones come in the place of the old one, each as far as it
is not in front already; all other tokens keep their order.

* `e.applyTo l`, `e.reports l` — the list after an edit, and whether the edit reports a change.
* `Reached l` — edits lead from a text to the list.
* `l.Orderly` — what holds of a list and of every edit of it.

## Main results

* `tokens_pushAll_eq`, `tokens_replace_eq`: the tokens after tokens are added or replaced.
* `mergeClasses_eq`: several texts are merged like one text.
* `orderly_of_reached`: every list that edits lead to is orderly.
-/

namespace Mockup.Tailwind

namespace ClassList

variable {l : ClassList} {old new : String} {front back : List String}

/-! ### The order of the tokens -/

/-- The tokens after some are added: the old ones, and the others by first occurrence. -/
theorem tokens_pushAll_eq (l : ClassList) (ts : List String) :
    (l.pushAll ts).tokens = l.tokens ++ (ts.filter (· ∉ l.tokens)).eraseDups := by
  induction ts using List.reverseRecOn with
  | nil => exact (List.append_nil _).symm
  | append_singleton ts t ih =>
    have hpush : l.pushAll (ts ++ [t]) = (l.pushAll ts).push t := pushAll_append ..
    rw [append_eraseDups_filter_concat, ← ih, hpush]
    split
    · next h => rw [push_of_mem h]
    · next h => rw [tokens_push_of_not_mem h]

/-- The list of some tokens has each where it comes first. -/
theorem tokens_ofTokens_eq (ts : List String) : (ofTokens ts).tokens = ts.eraseDups := by
  rw [ofTokens, tokens_pushAll_eq]
  simp [empty]

/-- The tokens after some are put in the place of one that is in the middle. -/
theorem tokens_substitute_eq {old : String} {new : List String}
    (h : l.tokens = front ++ old :: back) :
    (l.substitute old new).tokens =
      front ++ (new.filter (· ∉ front)).eraseDups ++ back.filter (· ∉ new) := by
  have hnodup := List.nodup_append.1 (h ▸ l.nodup)
  have hback : back.Nodup := (List.nodup_cons.1 hnodup.2.1).2
  have hfront : (ofTokens front).tokens = front := tokens_ofTokens hnodup.1
  -- The tokens behind the old one are not in front of it. So they are new but for those that
  -- replace it.
  have hkept : back.filter (· ∉ ((ofTokens front).pushAll new).tokens) = back.filter (· ∉ new) := by
    refine List.filter_congr fun t ht => ?_
    have hnot : t ∉ front := fun hmem => hnodup.2.2 t hmem t (List.mem_cons_of_mem _ ht) rfl
    simp [mem_pushAll, hfront, hnot]
  rw [substitute_eq h, tokens_pushAll_eq, hkept, eraseDups_of_nodup (hback.filter _),
    tokens_pushAll_eq, hfront]

/-- Without the tokens of a text the others are left. -/
theorem mem_remove {classes t : String} :
    t ∈ (l.remove classes).tokens ↔ t ∈ l.tokens ∧ t ∉ Text.words classes := by
  simp [remove, List.mem_filter]

theorem replace_of_notMem (h : Text.trim old ∉ l.tokens) : l.replace old new = l := by
  rw [replace_eq, if_pos (by simp [contains, h])]

/-- The tokens after some are put in the place of a word. -/
theorem tokens_replace_eq (hword : Text.IsWord (Text.trim old))
    (h : l.tokens = front ++ Text.trim old :: back) :
    (l.replace old new).tokens =
      front ++ ((Text.words new).filter (· ∉ front)).eraseDups ++
        back.filter (· ∉ Text.words new) := by
  have hne : (Text.trim old).isEmpty = false := by
    simpa [String.isEmpty_iff, ← String.toList_eq_nil_iff] using hword.1
  have hmem : l.contains (Text.trim old) = true := by simp [contains, h]
  rw [replace_eq, if_neg (by simp [hne, hmem]), tokens_substitute_eq h]

/-- Tokens that are neither replaced nor replacing ones keep their order. -/
theorem filter_tokens_replace {keep : String → Bool} (hold : keep (Text.trim old) = false)
    (hnew : ∀ t ∈ Text.words new, keep t = false) (hword : ∀ t ∈ l.tokens, Text.IsWord t) :
    (l.replace old new).tokens.filter keep = l.tokens.filter keep := by
  by_cases hmem : Text.trim old ∈ l.tokens
  · obtain ⟨front, back, htokens⟩ := List.append_of_mem hmem
    have hnone : ((Text.words new).filter (· ∉ front)).eraseDups.filter keep = [] :=
      List.filter_eq_nil_iff.2 fun t ht => by
        simp [hnew t (List.mem_of_mem_filter (List.mem_eraseDups.1 ht))]
    have hback : (back.filter (· ∉ Text.words new)).filter keep = back.filter keep := by
      rw [List.filter_filter]
      refine List.filter_congr fun t _ => ?_
      by_cases ht : t ∈ Text.words new
      · simp [hnew t ht]
      · simp [ht]
    rw [tokens_replace_eq (hword _ hmem) htokens, htokens, List.filter_append, List.filter_append,
      List.filter_append, hnone, hback, List.filter_cons_of_neg (by simp [hold]), List.append_nil]
  · rw [replace_of_notMem hmem]

/-! ### Edits -/

/-- An edit of a class list. -/
inductive Edit where
  /-- Adds the tokens of a text. -/
  | add (classes : String)
  /-- Removes the tokens of a text. -/
  | remove (classes : String)
  /-- Puts the tokens of a text in the place of a token. -/
  | replace (old new : String)

/-- The list after an edit. -/
def Edit.applyTo : Edit → ClassList → ClassList
  | .add classes, l => l.add classes
  | .remove classes, l => l.remove classes
  | .replace old new, l => l.replace old new

/-- Whether an edit reports a change. Where tokens are added or removed their number tells, and
where one is replaced the list that was put together anew is compared with the old one. -/
def Edit.reports : Edit → ClassList → Bool
  | .add classes, l => (l.add classes).tokens.length != l.tokens.length
  | .remove classes, l => (l.remove classes).tokens.length != l.tokens.length
  | .replace old new, l =>
    if (Text.trim old).isEmpty || !l.contains (Text.trim old) then false
    else (l.substitute (Text.trim old) (Text.words new)).tokens != l.tokens

/-- An edit reports a change exactly if the list after it is another one. -/
theorem Edit.reports_eq_changed (e : Edit) (l : ClassList) :
    e.reports l = l.changed (e.applyTo l) := by
  cases e with
  | add classes =>
    -- The old tokens stay in front, so an equal number of tokens is an equal list.
    have hprefix : l.tokens <+: (l.add classes).tokens := isPrefix_pushAll ..
    rw [reports, changed, applyTo, bne, bne, Bool.not_inj_iff, Bool.eq_iff_iff, beq_iff_eq,
      beq_iff_eq]
    exact ⟨fun h => hprefix.eq_of_length h.symm, fun h => h ▸ rfl⟩
  | remove classes =>
    have hsublist : (l.remove classes).tokens.Sublist l.tokens := List.filter_sublist
    rw [reports, changed, applyTo, bne, bne, Bool.not_inj_iff, Bool.eq_iff_iff, beq_iff_eq,
      beq_iff_eq]
    exact ⟨fun h => (hsublist.eq_of_length h).symm, fun h => h ▸ rfl⟩
  | replace old new =>
    rw [reports, changed, applyTo, replace_eq]
    split
    · simp
    · rw [bne_comm]

theorem Edit.reports_iff {e : Edit} : e.reports l = true ↔ (e.applyTo l).tokens ≠ l.tokens := by
  rw [reports_eq_changed, changed, bne_iff_ne, ne_comm]

/-- An edit that is made twice does the same as if it is made once. -/
theorem Edit.applyTo_applyTo (e : Edit) (l : ClassList) :
    e.applyTo (e.applyTo l) = e.applyTo l := by
  cases e with
  | add classes => exact add_add l classes
  | remove classes => exact remove_remove l classes
  | replace old new => exact replace_replace l old new

/-- The lists to which edits lead from a text. -/
inductive Reached : ClassList → Prop
  | parse (value : String) : Reached (parse value)
  | edit {l : ClassList} (e : Edit) (h : Reached l) : Reached (e.applyTo l)

/-- An edit of words leaves words. -/
theorem Edit.isWord_of_mem_applyTo (e : Edit) (h : ∀ t ∈ l.tokens, Text.IsWord t) :
    ∀ t ∈ (e.applyTo l).tokens, Text.IsWord t := by
  intro t ht
  cases e with
  | add classes =>
    rw [applyTo, mem_add] at ht
    exact ht.elim (h t) Text.isWord_of_mem_words
  | remove classes =>
    rw [applyTo, mem_remove] at ht
    exact h t ht.1
  | replace old new =>
    rw [applyTo] at ht
    exact (mem_or_mem_of_mem_replace ht).elim (h t) Text.isWord_of_mem_words

/-- However a list was edited, its tokens are words. -/
theorem Reached.isWord_of_mem (h : Reached l) : ∀ t ∈ l.tokens, Text.IsWord t := by
  induction h with
  | parse value => exact fun t => isWord_of_mem_parse
  | edit e _ ih => exact e.isWord_of_mem_applyTo ih

/-! ### Several texts -/

/-- Several texts are merged like one text in which a space is between them. -/
theorem mergeClasses_eq (parts : List String) :
    mergeClasses parts = (parse (" ".intercalate parts)).text := by
  have hfold (l : ClassList) :
      parts.foldl add l = l.pushAll (parts.flatMap Text.words) := by
    induction parts generalizing l with
    | nil => rfl
    | cons part parts ih => rw [List.foldl_cons, ih, List.flatMap_cons, pushAll_append, add]
  rw [mergeClasses, hfold, parse, Text.words_intercalate, ofTokens]

/-! ### Orderly lists -/

/-- What holds of a class list and of every edit of it. -/
structure Orderly (l : ClassList) : Prop where
  /-- The tokens are different words. -/
  nodup : l.tokens.Nodup
  isWord : ∀ t ∈ l.tokens, Text.IsWord t
  /-- The text of the list is read as the list. -/
  parse_text : parse l.text = l
  /-- An edit reports a change exactly if it changes the tokens. -/
  reports_iff : ∀ e : Edit, e.reports l = true ↔ (e.applyTo l).tokens ≠ l.tokens
  reports_eq_changed : ∀ e : Edit, e.reports l = l.changed (e.applyTo l)
  /-- The second time an edit changes nothing, and reports no change. -/
  again : ∀ e : Edit, e.applyTo (e.applyTo l) = e.applyTo l ∧ e.reports (e.applyTo l) = false
  /-- Added tokens are there, after the old ones, in the order in which they come first. -/
  mem_add : ∀ classes, ∀ t ∈ Text.words classes, t ∈ (l.add classes).tokens
  tokens_add : ∀ classes, (l.add classes).tokens =
    l.tokens ++ ((Text.words classes).filter (· ∉ l.tokens)).eraseDups
  /-- Without the removed tokens the others are left in their order. -/
  mem_remove : ∀ classes t, t ∈ (l.remove classes).tokens ↔ t ∈ l.tokens ∧ t ∉ Text.words classes
  sublist_remove : ∀ classes, (l.remove classes).tokens.Sublist l.tokens
  /-- The tokens in the place of an old one are those that are not in front of it. Behind it those
  are left that are not among them. -/
  tokens_replace : ∀ old new front back, l.tokens = front ++ Text.trim old :: back →
    (l.replace old new).tokens =
      front ++ ((Text.words new).filter (· ∉ front)).eraseDups ++
        back.filter (· ∉ Text.words new)
  /-- Where there is nothing to replace, nothing changes. -/
  replace_of_notMem : ∀ old new, Text.trim old ∉ l.tokens → l.replace old new = l
  /-- Tokens that are neither replaced nor replacing ones keep their order. -/
  filter_replace : ∀ old new,
    (l.replace old new).tokens.filter (fun t => t ≠ Text.trim old ∧ t ∉ Text.words new) =
      l.tokens.filter fun t => t ≠ Text.trim old ∧ t ∉ Text.words new

/-- However a class list was edited, it is orderly. Several texts are merged like one text in which
a space is between them. -/
theorem orderly_of_reached :
    (∀ l, Reached l → l.Orderly) ∧
      ∀ parts, mergeClasses parts = (parse (" ".intercalate parts)).text := by
  refine ⟨fun l h => ?_, mergeClasses_eq⟩
  -- Nothing but single words gets into a list, and that is all the rest needs.
  have hwords := h.isWord_of_mem
  exact
    { nodup := l.nodup
      isWord := hwords
      parse_text := parse_text hwords
      reports_iff := fun e => e.reports_iff
      reports_eq_changed := fun e => e.reports_eq_changed l
      again := fun e => by
        have htwice := e.applyTo_applyTo l
        refine ⟨htwice, ?_⟩
        rw [Edit.reports_eq_changed, htwice, changed, bne_self_eq_false]
      mem_add := fun classes t ht => mem_pushAll.2 (.inr ht)
      tokens_add := fun classes => tokens_pushAll_eq l _
      mem_remove := fun classes t => mem_remove
      sublist_remove := fun classes => List.filter_sublist
      tokens_replace := fun old new front back htokens =>
        tokens_replace_eq (hwords _ (by simp [htokens])) htokens
      replace_of_notMem := fun old new hnot => replace_of_notMem hnot
      filter_replace := fun old new =>
        filter_tokens_replace (by simp) (fun t ht => by simp [ht]) hwords }

/-- Of four tokens that are put in the place of one, two are new, one is the old one, and one moves
to the front. -/
theorem orderly_of_reached_replaced :
    ((parse " a b  c").replace "b" "d b a c e").tokens = ["a", "d", "b", "c", "e"] ∧
      ((parse " a b  c").replace "b" "d b a c e").Orderly :=
  ⟨by decide +kernel, orderly_of_reached.1 _ (.edit (.replace "b" "d b a c e") (.parse " a b  c"))⟩

end ClassList

end Mockup.Tailwind
