import Mockup.Proofs.Json.Number
import Mockup.Proofs.Json.Quoted
import Mockup.Proofs.Jsx.Reads

/-!
# Texts that a script passes over

A script is calm between two words and in one. A text is balanced if reading it leaves every calm
script calm, with the same brackets due and the same elements found. Words, blanks and operators are
balanced, quoted strings are, and so is what is balanced between two brackets; with that every
written JSON value is.

## Main results

* `reads_quoted`: a quoted string is one value.
* `passes_of_dueAfter`: what a text of words, operators and brackets does to the brackets that are
  due.
* `Balanced.brackets`: a balanced text between brackets is balanced.
* `balanced_compactChars`: a JSON value is balanced.
-/

namespace Mockup.Jsx

/-! ### Quoted strings -/

section Quoted

variable {s : Script} {outer : List Context} {here : Cursor} {start : Nat}

/-- A character that is written between quotes leaves the string open. -/
theorem reads_escaped (c : Char) :
    Situation.Reads ⟨.script s (.string '"' start false), outer⟩ here (Json.escaped c)
      ⟨.script s (.string '"' start false), outer⟩ := by
  have skip (d : Char) (there : Cursor) :
      Situation.read ⟨.script s (.string '"' start true), outer⟩ there d =
        .ok ⟨.script s (.string '"' start false), outer⟩ := rfl
  have back (there : Cursor) :
      Situation.read ⟨.script s (.string '"' start false), outer⟩ there '\\' =
        .ok ⟨.script s (.string '"' start true), outer⟩ := rfl
  have plain (d : Char) (there : Cursor) (hquote : d ≠ '"') (hback : d ≠ '\\')
      (hlow : ¬d.toNat < 0x20) :
      Situation.read ⟨.script s (.string '"' start false), outer⟩ there d =
        .ok ⟨.script s (.string '"' start false), outer⟩ := by
    have hline : d ≠ '\n' := by
      rintro rfl
      exact hlow (by decide)
    simp [Situation.read, Script.read, Script.readString, Script.goOn, hquote, hback, hline]
  -- What is written is a pair after a backslash, a code unit or the character itself; none of the
  -- characters after the first backslash is a mark.
  rcases Json.escaped_cases c with ⟨d, h, -⟩ | ⟨hlow, h⟩ | ⟨h, hquote, hback, hlow⟩
  · rw [h]
    exact .cons (back _) (.single (skip d _))
  · rw [h]
    obtain ⟨hq₁, hb₁, hl₁⟩ := Json.hexDigit_plain (c.toNat / 16) (by omega)
    obtain ⟨hq₂, hb₂, hl₂⟩ := Json.hexDigit_plain (c.toNat % 16) (by omega)
    have zero (there : Cursor) := plain '0' there (by decide) (by decide) (by decide)
    exact .cons (back _) <| .cons (skip 'u' _) <| .cons (zero _) <| .cons (zero _) <|
      .cons (plain _ _ hq₁ hb₁ hl₁) (.single (plain _ _ hq₂ hb₂ hl₂))
  · rw [h]
    exact .single (plain c _ hquote hback hlow)

theorem reads_escapedAll (cs : List Char) :
    Situation.Reads ⟨.script s (.string '"' start false), outer⟩ here (Json.escapedAll cs)
      ⟨.script s (.string '"' start false), outer⟩ := by
  induction cs generalizing here with
  | nil => exact .nil _ _
  | cons c cs ih => exact (reads_escaped c).append ih

/-- A quoted string in a script is one value, in which no element is found. -/
theorem reads_quoted (cs : List Char) :
    Situation.Reads ⟨.script s .between, outer⟩ here (Json.quoted cs)
      ⟨.script (s.afterValue []) .between, outer⟩ := by
  have enter : Situation.read ⟨.script s .between, outer⟩ here '"' =
      .ok ⟨.script s (.string '"' here.offset false), outer⟩ := rfl
  exact .cons enter ((reads_escapedAll cs).append (.single rfl))

end Quoted

/-! ### Calm scripts -/

/-- A script between two words or in one, with brackets due and elements found. -/
def Situation.Calm (due : List Char) (found : List Element) (outer : List Context)
    (s : Situation) : Prop :=
  ∃ previous part, s = ⟨.script ⟨due, previous, found⟩ part, outer⟩ ∧
    (part = .between ∨ ∃ start, part = .word start)

/-- A character that is neither a quote nor a bracket and that opens nothing. -/
def isQuiet (c : Char) : Bool :=
  !(c == '"' || c == '\'' || c == '\x60' || c == '/' || c == '<' || isClosing c ||
    (closing? c).isSome)

section Calm

variable {due : List Char} {found : List Element} {outer : List Context} {s : Situation}
  {here : Cursor} {c : Char}

theorem calm_between (script : Script) (outer : List Context) :
    Situation.Calm script.due script.found outer ⟨.script script .between, outer⟩ :=
  ⟨script.previous, .between, rfl, .inl rfl⟩

/-- A character that cannot stand in a word is read after the word, if there is one. -/
theorem Situation.Calm.read_eq (h : s.Calm due found outer) (here : Cursor)
    (hc : isWordChar c = false) :
    ∃ previous, s.read here c = Script.readBetween ⟨due, previous, found⟩ outer here c := by
  obtain ⟨previous, part, rfl, rfl | ⟨start, rfl⟩⟩ := h
  · exact ⟨previous, rfl⟩
  · simp only [Situation.read, Script.read, hc, Bool.false_eq_true, if_false]
    exact ⟨_, rfl⟩

theorem isWordChar_ne {d : Char} (h : isWordChar c = true) (hd : isWordChar d = false) : c ≠ d := by
  rintro rfl
  simp [h] at hd

/-- A character of a word belongs to no other part of a script. -/
theorem isQuiet_of_isWordChar (h : isWordChar c = true) : isQuiet c = true := by
  have hne {d : Char} (hd : isWordChar d = false) : c ≠ d := isWordChar_ne h hd
  simp [isQuiet, isClosing, closing?, hne (d := '"') (by decide), hne (d := '\'') (by decide),
    hne (d := '\x60') (by decide), hne (d := '/') (by decide), hne (d := '<') (by decide),
    hne (d := '(') (by decide), hne (d := ')') (by decide), hne (d := '[') (by decide),
    hne (d := ']') (by decide), hne (d := '\x7b') (by decide), hne (d := '\x7d') (by decide)]

/-- A character of a word opens one. -/
theorem readBetween_word {script : Script} (h : isWordChar c = true) :
    script.readBetween outer here c = .ok ⟨.script script (.word here.offset), outer⟩ := by
  have hne {d : Char} (hd : isWordChar d = false) : c ≠ d := isWordChar_ne h hd
  simp [Script.readBetween, Script.goOn, h, isClosing, Text.isAsciiBlank,
    hne (d := '"') (by decide), hne (d := '\'') (by decide), hne (d := '\x60') (by decide),
    hne (d := '/') (by decide), hne (d := '<') (by decide), hne (d := ')') (by decide),
    hne (d := ']') (by decide), hne (d := '\x7d') (by decide), hne (d := ' ') (by decide),
    hne (d := '\t') (by decide), hne (d := '\n') (by decide), hne (d := '\x0c') (by decide),
    hne (d := '\r') (by decide)]

/-- Quiet characters keep a script calm. -/
theorem calm_readBetween {previous : Previous} (hc : isQuiet c = true) :
    ∃ t, Script.readBetween ⟨due, previous, found⟩ outer here c = .ok t ∧
      t.Calm due found outer := by
  simp only [isQuiet, Bool.not_eq_true', Bool.or_eq_false_iff, Option.isSome_eq_false_iff,
    Option.isNone_iff_eq_none, beq_eq_false_iff_ne] at hc
  obtain ⟨⟨⟨⟨⟨⟨hdouble, hsingle⟩, hback⟩, hslash⟩, hangle⟩, hclosing⟩, hopening⟩ := hc
  simp only [Script.readBetween, hdouble, hsingle, hback, hslash, hangle, hclosing, hopening,
    beq_iff_eq, Bool.or_eq_true, Bool.and_eq_true, or_self, false_and, if_false,
    Bool.false_eq_true, Script.goOn]
  split
  · exact ⟨_, rfl, _, _, rfl, .inl rfl⟩
  split
  · exact ⟨_, rfl, _, _, rfl, .inr ⟨_, rfl⟩⟩
  · exact ⟨_, rfl, _, _, rfl, .inl rfl⟩

theorem Situation.Calm.read_quiet (h : s.Calm due found outer) (here : Cursor)
    (hc : isQuiet c = true) :
    ∃ t, s.read here c = .ok t ∧ t.Calm due found outer := by
  by_cases hword : isWordChar c = true
  · obtain ⟨previous, part, rfl, rfl | ⟨start, rfl⟩⟩ := h
    · exact calm_readBetween hc
    · refine ⟨_, ?_, previous, .word start, rfl, .inr ⟨start, rfl⟩⟩
      simp [Situation.read, Script.read, Script.goOn, hword]
  · obtain ⟨previous, hread⟩ := h.read_eq here (by simpa using hword)
    rw [hread]
    exact calm_readBetween hc

/-- An opening bracket makes the closing one due. -/
theorem Situation.Calm.read_opening {d : Char} (h : s.Calm due found outer)
    (hd : closing? c = some d) :
    s.read here c = .ok ⟨.script ⟨d :: due, .punctuation, found⟩ .between, outer⟩ := by
  have hbracket : c = '(' ∨ c = '[' ∨ c = '\x7b' := by
    unfold closing? at hd
    split at hd <;> simp_all
  have hword : isWordChar c = false := by
    rcases hbracket with rfl | rfl | rfl <;> decide
  obtain ⟨previous, hread⟩ := h.read_eq here hword
  rw [hread]
  rcases hbracket with rfl | rfl | rfl <;> cases hd <;> rfl

/-- The bracket that is due may follow. -/
theorem Situation.Calm.read_due (h : s.Calm (c :: due) found outer) (here : Cursor)
    (hc : isClosing c = true) :
    ∃ t, s.read here c = .ok t ∧ t.Calm due found outer := by
  have hbracket : c = ')' ∨ c = ']' ∨ c = '\x7d' := by
    simpa [isClosing, or_assoc] using hc
  have hword : isWordChar c = false := by
    rcases hbracket with rfl | rfl | rfl <;> decide
  obtain ⟨previous, hread⟩ := h.read_eq here hword
  rw [hread]
  rcases hbracket with rfl | rfl | rfl <;>
    exact ⟨_, by simp [Script.readBetween, Script.readClosing, isClosing, Script.goOn]; rfl, _, _,
      rfl, .inl rfl⟩

/-- A quoted string may follow. -/
theorem Situation.Calm.reads_quoted (h : s.Calm due found outer) (cs : List Char) :
    ∃ t, s.Reads here (Json.quoted cs) t ∧ t.Calm due found outer := by
  obtain ⟨previous, hread⟩ := h.read_eq (c := '"') here (by decide)
  have hquoted : Situation.Reads ⟨.script ⟨due, previous, found⟩ .between, outer⟩ here
      (Json.quoted cs) _ := Jsx.reads_quoted cs
  obtain ⟨m, hm, hrest⟩ := hquoted.of_cons
  refine ⟨_, .cons (hread.trans hm) hrest, .value, .between, ?_, .inl rfl⟩
  simp [Script.afterValue]

end Calm

/-! ### Balanced texts -/

/-- A text that leaves a calm script calm, with the brackets in `due'` due instead of those in
`due`. -/
def Passes (due : List Char) (cs : List Char) (due' : List Char) : Prop :=
  ∀ (found : List Element) (outer : List Context) (s : Situation) (here : Cursor),
    s.Calm due found outer → ∃ t, s.Reads here cs t ∧ t.Calm due' found outer

/-- A text that leaves the brackets as they are. -/
def Balanced (cs : List Char) : Prop :=
  ∀ due, Passes due cs due

/-- The brackets that are due after a text of quiet characters and brackets. -/
def dueAfter : List Char → List Char → Option (List Char)
  | due, [] => some due
  | due, c :: cs =>
    if isQuiet c then dueAfter due cs
    else match closing? c, due with
      | some d, due => dueAfter (d :: due) cs
      | none, d :: due => if isClosing c ∧ d = c then dueAfter due cs else none
      | none, [] => none

section Passes

variable {as bs cs due due' due'' : List Char}

theorem Passes.nil : Passes due [] due :=
  fun _ _ s _ h => ⟨s, .nil s _, h⟩

theorem Passes.append (has : Passes due as due') (hbs : Passes due' bs due'') :
    Passes due (as ++ bs) due'' := by
  intro found outer s here h
  obtain ⟨m, hm, hcalm⟩ := has found outer s here h
  obtain ⟨t, ht, hcalm⟩ := hbs found outer m _ hcalm
  exact ⟨t, hm.append ht, hcalm⟩

theorem passes_quiet {c : Char} (h : isQuiet c = true) : Passes due [c] due := by
  intro found outer s here hs
  obtain ⟨t, ht, hcalm⟩ := hs.read_quiet here h
  exact ⟨t, .single ht, hcalm⟩

theorem passes_opening {c d : Char} (h : closing? c = some d) : Passes due [c] (d :: due) :=
  fun _ _ _ _ hs => ⟨_, .single (hs.read_opening h), calm_between ⟨d :: due, _, _⟩ _⟩

theorem passes_due {c : Char} (h : isClosing c = true) : Passes (c :: due) [c] due := by
  intro found outer s here hs
  obtain ⟨t, ht, hcalm⟩ := hs.read_due here h
  exact ⟨t, .single ht, hcalm⟩

/-- A text of quiet characters and brackets is passed over if its brackets match. -/
theorem passes_of_dueAfter (h : dueAfter due cs = some due') : Passes due cs due' := by
  induction cs generalizing due with
  | nil =>
    cases h
    exact .nil
  | cons c cs ih =>
    unfold dueAfter at h
    split at h
    · next hquiet => exact (passes_quiet hquiet).append (ih h)
    split at h
    · next d _ hopening => exact (passes_opening hopening).append (ih h)
    · next d due hnone =>
      split at h
      · next hdue =>
        obtain ⟨hclosing, rfl⟩ := hdue
        exact (passes_due hclosing).append (ih h)
      · contradiction
    · contradiction

/-- The name of a type before its arguments: the angle bracket after it opens no element. -/
theorem passes_typeArguments {word : List Char} (hne : word ≠ [])
    (hword : ∀ c ∈ word, isWordChar c = true)
    (hleading : leadingWords.contains (String.ofList word) = false) :
    Passes due (' ' :: (word ++ ['<'])) due := by
  intro found outer s here hs
  obtain ⟨previous, hread⟩ := hs.read_eq (c := ' ') here (by decide)
  have hspace : s.read here ' ' = .ok ⟨.script ⟨due, previous, found⟩ .between, outer⟩ := hread
  obtain ⟨c, cs, rfl⟩ := List.exists_cons_of_ne_nil hne
  have hstart : Situation.read ⟨.script ⟨due, previous, found⟩ .between, outer⟩
      (here.advance ' ') c =
      .ok ⟨.script ⟨due, previous, found⟩ (.word (here.advance ' ').offset), outer⟩ :=
    readBetween_word (hword c List.mem_cons_self)
  have hrest : Situation.Reads
      ⟨.script ⟨due, previous, found⟩ (.word (here.advance ' ').offset), outer⟩
      ((here.advance ' ').advance c) cs
      ⟨.script ⟨due, previous, found⟩ (.word (here.advance ' ').offset), outer⟩ := by
    refine .repeated fun d hd there => ?_
    simp [Situation.read, Script.read, Script.goOn, hword d (List.mem_cons_of_mem _ hd)]
  have hsince : ((here.advance ' ').after (c :: cs)).since (here.advance ' ').offset = c :: cs :=
    Cursor.since_after _ _
  refine ⟨⟨.script ⟨due, .punctuation, found⟩ .between, outer⟩,
    .cons hspace ((Situation.Reads.cons hstart hrest).append (.single ?_)),
    calm_between ⟨due, .punctuation, found⟩ outer⟩
  -- The word is a value, and after a value the bracket is an operator.
  have hangle : isWordChar '<' = false := by decide
  simp only [Situation.read, Script.read, hangle, hsince, Script.afterWord, hleading]
  rfl

end Passes

namespace Balanced

variable {as bs cs : List Char}

theorem nil : Balanced [] :=
  fun _ => .nil

theorem append (has : Balanced as) (hbs : Balanced bs) : Balanced (as ++ bs) :=
  fun due => (has due).append (hbs due)

/-- Characters that are quiet. -/
theorem quiet (h : ∀ c ∈ cs, isQuiet c = true) : Balanced cs := by
  induction cs with
  | nil => exact .nil
  | cons c cs ih =>
    intro due
    exact (passes_quiet (h c List.mem_cons_self)).append
      (ih (fun d hd => h d (List.mem_cons_of_mem _ hd)) due)

theorem of_all (h : cs.all isQuiet = true) : Balanced cs :=
  quiet (List.all_eq_true.1 h)

theorem quoted (cs : List Char) : Balanced (Json.quoted cs) :=
  fun _ _ _ _ _ h => h.reads_quoted cs

/-- A balanced text between an opening bracket and its closing one. -/
theorem brackets {o d : Char} (hd : closing? o = some d) (h : Balanced cs) :
    Balanced (o :: (cs ++ [d])) := by
  have hclosing : isClosing d = true := by
    unfold closing? at hd
    split at hd <;> cases hd <;> rfl
  intro due
  exact (passes_opening hd).append ((h (d :: due)).append (passes_due hclosing))

end Balanced

/-! ### JSON values -/

theorem isQuiet_of_isNumberChar {c : Char} (h : Json.isNumberChar c = true) : isQuiet c = true := by
  simp only [Json.isNumberChar, Bool.or_eq_true, beq_iff_eq] at h
  rcases h with ((halnum | rfl) | rfl) | rfl
  · exact isQuiet_of_isWordChar (by simp [isWordChar, halnum])
  all_goals decide

mutual

/-- A script passes over every JSON value. -/
theorem balanced_compactChars : ∀ j : Json, Balanced j.compactChars
  | .null => .of_all rfl
  | .bool true => .of_all rfl
  | .bool false => .of_all rfl
  | .number n => .quiet fun c hc => isQuiet_of_isNumberChar (n.isNumeric_text c hc)
  | .string s => .quoted s.toList
  | .array items => by
    rw [Json.compactChars]
    exact .brackets rfl (balanced_compactItems items)
  | .object fields => by
    rw [Json.compactChars]
    exact .brackets rfl (balanced_compactFields fields)

theorem balanced_compactItems : ∀ js : List Json, Balanced (Json.compactItems js)
  | [] => .nil
  | [j] => balanced_compactChars j
  | j :: k :: js => by
    have comma : Balanced [','] := .of_all rfl
    rw [Json.compactItems]
    · exact (balanced_compactChars j).append (comma.append (balanced_compactItems (k :: js)))
    · simp

theorem balanced_compactFields : ∀ fs : List (String × Json), Balanced (Json.compactFields fs)
  | [] => .nil
  | [(k, j)] => by
    have colon : Balanced [':'] := .of_all rfl
    rw [Json.compactFields]
    exact (Balanced.quoted k.toList).append (colon.append (balanced_compactChars j))
  | (k, j) :: f :: fs => by
    have colon : Balanced [':'] := .of_all rfl
    have comma : Balanced [','] := .of_all rfl
    rw [Json.compactFields]
    · exact (Balanced.quoted k.toList).append (colon.append
        ((balanced_compactChars j).append (comma.append (balanced_compactFields (f :: fs)))))
    · simp

end

end Mockup.Jsx
