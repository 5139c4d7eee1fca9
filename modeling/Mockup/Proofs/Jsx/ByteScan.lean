import Mockup.Proofs.Jsx.ByteElement

/-!
# Scripts byte by byte

The byte reader of scripts and of the templates in them, one lemma for each kind of character that a
part of a script begins with. With them all readings end, and the byte reader does what `scan` does.

## Main results

* `ends_readTemplate`, `ends_readScript`: templates and scripts.
* `allEnd`: all readings end.
* `elements_total`: the byte reader ends on every text without a fault, with the outcome of `scan`,
  and an error is at a boundary of the text.
-/

namespace Mockup.Jsx.Source

open Text (IsBoundary byteLength)

section

variable {source rest : List Char} {here : Cursor} {s : Script} {outer : List Context}
  {c d : Char} {n place start : Nat} {found : List Element} {inBraces : Bool}

/-- A script goes on after a part of it. -/
theorem AllEnd.script_of_resumesAt (all : AllEnd source n) (hbraces : outer.isEmpty = !inBraces)
    (h : ResumesAt source n ⟨.script s .between, outer⟩ place) :
    Ends source (readScript source inBraces place s) (ScriptDone source n inBraces outer) := by
  obtain ⟨there, rest, rfl, hlt, hreaches⟩ := h
  exact (all.script hlt hbraces hreaches).mono fun _ hr => hr.mono (Nat.le_of_lt hlt)

/-- A template goes on after a part of it. -/
theorem AllEnd.template_of_resumesAt (all : AllEnd source n) (hstart : IsBoundary source start)
    (h : ResumesAt source n ⟨.template ⟨start, found⟩ .between, .script s :: outer⟩ place) :
    Ends source (readTemplate source start place found) (TemplateDone source n s outer) := by
  obtain ⟨there, rest, rfl, hlt, hreaches⟩ := h
  have hends := all.template false hlt hstart hreaches
  exact hends.mono fun _ hr => ResumesAt.mono hr (Nat.le_of_lt hlt)

/-! ### Templates -/

theorem readTemplate_high {b : Char} (hb : byteAt? source place = some b) (hle : 0x80 ≤ b.toNat) :
    readTemplate source start place found = readTemplate source start (place + 1) found := by
  rw [readTemplate, hb]
  simp [ne_of_high hle]

/-- A template goes on after a character that stands for itself. -/
theorem readTemplate_self (h : here.passed ++ c :: rest = source) (hstop : c ≠ '\x60')
    (hback : c ≠ '\\') (hdollar : c = '$' → rest.head? ≠ some '\x7b') :
    readTemplate source start here.offset found =
      readTemplate source start (here.advance c).offset found := by
  rcases Nat.lt_or_ge c.toNat 0x80 with hc | hc
  · rw [readTemplate, byteAt?_ascii h hc, offset_advance_ascii here hc]
    have hopens : (c == '$' && byteAt? source (here.offset + 1) == some '\x7b') = false := by
      rw [peek_beq h hc (by decide)]
      simpa using hdollar
    simp [hback, hstop, hopens]
  · exact after_inside h hc (fun _ _ => readTemplate_high) (Nat.zero_le _)

/-- A dollar sign in a template opens a substitution if a brace follows it. -/
theorem ends_dollar (all : AllEnd source (rest.length + 1)) (hstart : IsBoundary source start)
    (h : Reaches source here ⟨.template ⟨start, found⟩ .between, .script s :: outer⟩
      ('$' :: rest)) :
    Ends source (readTemplate source start here.offset found)
      (TemplateDone source (rest.length + 1) s outer) := by
  have hpassed := h.passed_append
  have hascii : '$'.toNat < 0x80 := by decide
  have hadvance := offset_advance_ascii here hascii
  have hnext := h.step (t := ⟨.template ⟨start, found⟩ .dollar, .script s :: outer⟩) rfl
  rw [readTemplate, byteAt?_ascii hpassed hascii]
  simp only [peek_beq hpassed hascii (show '\x7b'.toNat < 0x80 by decide)]
  cases hopens : (rest.head? == some '\x7b') with
  | true =>
    obtain ⟨rest, rfl⟩ := List.head?_eq_some_iff.1 (beq_iff_eq.1 hopens)
    rw [List.length_cons] at all ⊢
    have hends := all.braces (by omega) (by simp) hnext rfl
    rw [hadvance] at hends
    refine hends.bind fun inner hinner => ?_
    exact all.template_of_resumesAt hstart (.mono (hinner.resumesAt fun _ => rfl) (by omega))
  | false =>
    -- A lone dollar sign is text: the next character is read as between two parts.
    have hbetween := hnext.replace
      (t := ⟨.template ⟨start, found⟩ .between, .script s :: outer⟩)
      (fun d ds hd => by
        have hbrace : ¬d = '\x7b' := by simpa [hd] using hopens
        simp [Situation.read, Template.read, hbrace])
      fun _ => rfl
    exact all.template_of_resumesAt hstart ⟨_, rest, hadvance, Nat.lt_succ_self _, hbetween⟩

/-- A template is read to its end. After a backslash the place is one byte ahead. -/
theorem ends_readTemplate {escaped : Bool} (all : AllEnd source rest.length)
    (hstart : IsBoundary source start)
    (h : Reaches source here
      ⟨.template ⟨start, found⟩ (bif escaped then .escaped else .between), .script s :: outer⟩
      rest) :
    Ends source (readTemplate source start (here.offset + escaped.toNat) found)
      (TemplateDone source rest.length s outer) := by
  have hpassed := h.passed_append
  cases rest with
  | nil =>
    rw [readTemplate, byteAt?_end hpassed]
    exact .error h.scan_eq_finish hstart
  | cons c rest =>
    have hbytes : ∀ place b, byteAt? source place = some b → 0x80 ≤ b.toNat →
        readTemplate source start place found = readTemplate source start (place + 1) found :=
      fun _ _ => readTemplate_high
    cases escaped with
    | true =>
      rw [Bool.toNat_true, after_escaped hpassed hbytes]
      exact all.template_of_resumesAt hstart ⟨_, rest, rfl, Nat.lt_succ_self _, h.step rfl⟩
    | false =>
      rw [Bool.toNat_false, Nat.add_zero]
      by_cases hdollar : c = '$'
      · subst hdollar
        exact ends_dollar all hstart h
      by_cases hback : c = '\\'
      · subst hback
        have hnext := h.step (t := ⟨.template ⟨start, found⟩ .escaped, .script s :: outer⟩) rfl
        have hends := all.template true (Nat.lt_succ_self _) hstart hnext
        rw [readTemplate, byteAt?_ascii hpassed (by decide)]
        exact hends.mono fun _ hr => ResumesAt.mono hr (Nat.le_succ _)
      by_cases hend : c = '\x60'
      · subst hend
        rw [readTemplate, byteAt?_ascii hpassed (by decide)]
        exact .value ⟨_, rest, rfl, Nat.lt_succ_self _, h.step rfl⟩
      -- All other characters are text, whether they are one byte or more.
      have hread : Situation.read ⟨.template ⟨start, found⟩ .between, .script s :: outer⟩ here c =
          Template.goOn ⟨start, found⟩ .between (.script s :: outer) := by
        simp [Situation.read, Template.read, Template.readBetween, hback, hend, hdollar]
      rw [readTemplate_self hpassed hend hback fun heq => absurd heq hdollar]
      exact all.template_of_resumesAt hstart ⟨_, rest, rfl, Nat.lt_succ_self _, h.step hread⟩

/-! ### Parts of a script -/

/-- A comment up to the end of the line. -/
theorem resumesAt_lineComment
    (h : Reaches source here ⟨.script s .between, outer⟩ ('/' :: '/' :: rest)) :
    ResumesAt source (rest.length + 2) ⟨.script s .between, outer⟩
      (skipWhile source (· != '\n') here.offset) := by
  have hcomment : Reaches source (here.after ['/', '/']) ⟨.script s .lineComment, outer⟩ rest :=
    h.reads (.cons rfl (.single rfl))
  -- The end of the line is a blank of the script.
  have hend := hcomment.skip_replace (p := (· != '\n')) (t := ⟨.script s .between, outer⟩)
    (fun c hc there => by simp_all [Situation.read, Script.read, Script.goOn])
    (fun c hc => by
      obtain rfl : c = '\n' := by simpa using hc
      rfl)
    fun _ => rfl
  have huniform : Uniform (· != '\n') := .of_high (v := true) fun c hc => by simp [ne_of_high hc]
  have hlen := (List.dropWhile_sublist (· != '\n') (l := rest)).length_le
  rw [skipWhile_eq h.passed_append huniform]
  exact ⟨_, _, rfl, by omega, hend⟩

/-- What a slash opens is told by the next character and by what came before. -/
theorem ends_slash (all : AllEnd source (rest.length + 1)) (hbraces : outer.isEmpty = !inBraces)
    (h : Reaches source here ⟨.script s .between, outer⟩ ('/' :: rest)) :
    Ends source (readScript source inBraces here.offset s)
      (ScriptDone source (rest.length + 1) inBraces outer) := by
  have hpassed := h.passed_append
  have hascii : '/'.toNat < 0x80 := by decide
  have hadvance := offset_advance_ascii here hascii
  have hnext := h.step (t := ⟨.script s (.slash here.offset), outer⟩) rfl
  rw [readScript, byteAt?_ascii hpassed hascii]
  simp only [peek_beq hpassed hascii (show '/'.toNat < 0x80 by decide),
    peek_beq hpassed hascii (show '*'.toNat < 0x80 by decide)]
  cases hline : (rest.head? == some '/') with
  | true =>
    obtain ⟨rest, rfl⟩ := List.head?_eq_some_iff.1 (beq_iff_eq.1 hline)
    exact all.script_of_resumesAt hbraces (resumesAt_lineComment h)
  | false =>
  cases hblock : (rest.head? == some '*') with
  | true =>
    obtain ⟨rest, rfl⟩ := List.head?_eq_some_iff.1 (beq_iff_eq.1 hblock)
    have hcomment := hnext.step (t := ⟨.script s (.blockComment here.offset false), outer⟩) rfl
    refine (ends_readBlockComment h.isBoundary rfl hcomment).bind fun stop hstop => ?_
    exact all.script_of_resumesAt hbraces (hstop.mono (by simp))
  | false =>
  have hplain : ∀ d ds, rest = d :: ds → ¬d = '/' ∧ ¬d = '*' := by
    rintro d ds rfl
    exact ⟨by simpa using hline, by simpa using hblock⟩
  cases hallows : s.previous.allowsExpression with
  | true =>
    have hpattern := hnext.replace (t := ⟨.script s (.pattern here.offset false false), outer⟩)
      (fun d ds hd => by simp [Situation.read, Script.read, hplain d ds hd, hallows])
      (fun _ => by simp [Scan.finish, Scan.finishScript, hallows])
    have hends := ends_readPattern h.isBoundary hpattern
    rw [hadvance] at hends
    refine hends.bind fun stop hstop => ?_
    exact all.script_of_resumesAt hbraces (hstop.mono (Nat.le_succ _))
  | false =>
    -- After a value the slash divides.
    have hbetween := hnext.replace
      (t := ⟨.script { s with previous := .punctuation } .between, outer⟩)
      (fun d ds hd => by simp [Situation.read, Script.read, hplain d ds hd, hallows])
      (fun _ => by simp [Scan.finish, Scan.finishScript, hallows]; rfl)
    exact all.script_of_resumesAt hbraces ⟨_, rest, hadvance, Nat.lt_succ_self _, hbetween⟩

/-- An angle bracket where an expression may start opens an element, or is an operator. -/
theorem ends_angle (all : AllEnd source (rest.length + 1)) (hbraces : outer.isEmpty = !inBraces)
    (hallows : s.previous.allowsExpression = true)
    (h : Reaches source here ⟨.script s .between, outer⟩ ('<' :: rest)) :
    Ends source (readScript source inBraces here.offset s)
      (ScriptDone source (rest.length + 1) inBraces outer) := by
  have hpassed := h.passed_append
  have hascii : '<'.toNat < 0x80 := by decide
  have hadvance := offset_advance_ascii here hascii
  have hnext := h.step (t := ⟨.script s (.angle here.offset), outer⟩)
    (by simp [Situation.read, Script.read, Script.readBetween, Script.goOn, hallows])
  rw [readScript, byteAt?_ascii hpassed hascii]
  simp only [opensAt_eq hpassed hascii, hallows]
  cases hopens : rest.head?.any opensElement with
  | true =>
    have hname := hnext.replace (t := ⟨.tag { start := here.offset } .name, .script s :: outer⟩)
      (fun d ds hd => by
        have hopen : opensElement d = true := by simpa [hd] using hopens
        simp [Situation.read, Script.read, hopen])
      (fun hnil => by simp [hnil] at hopens)
    refine (all.element (Nat.lt_succ_self _) hadvance hname).bind fun inner hinner => ?_
    exact all.script_of_resumesAt hbraces ((hinner _ rfl).mono (Nat.le_succ _))
  | false =>
    -- As an operator the bracket is punctuation, after which an expression may begin.
    have hbetween := hnext.replace
      (t := ⟨.script { s with previous := .punctuation } .between, outer⟩)
      (fun d ds hd => by
        have hopen : opensElement d = false := by simpa [hd] using hopens
        simp [Situation.read, Script.read, hopen])
      fun _ => rfl
    exact all.script_of_resumesAt hbraces ⟨_, rest, hadvance, Nat.lt_succ_self _, hbetween⟩

/-- A closing brace of a script uses only what was found in it. -/
theorem leaveBraces_found (here : Cursor) (s : Script) (outer : List Context) :
    leaveBraces here s outer = leaveBraces here { found := s.found } outer := by
  rcases outer with _ | ⟨_ | _ | ⟨_, _ | _⟩ | _, _⟩ <;> rfl

/-- A closing bracket closes one of the script, or the braces around the script. -/
theorem ends_closing (all : AllEnd source (rest.length + 1)) (hbraces : outer.isEmpty = !inBraces)
    (hclosing : isClosing c = true)
    (h : Reaches source here ⟨.script s .between, outer⟩ (c :: rest)) :
    Ends source (readScript source inBraces here.offset s)
      (ScriptDone source (rest.length + 1) inBraces outer) := by
  have hpassed := h.passed_append
  have hcases : (c = ')' ∨ c = ']') ∨ c = '\x7d' := by simpa [isClosing] using hclosing
  have hc : c.toNat < 0x80 := by rcases hcases with (rfl | rfl) | rfl <;> decide
  have hread : Situation.read ⟨.script s .between, outer⟩ here c = s.readClosing outer here c := by
    rcases hcases with (rfl | rfl) | rfl <;> rfl
  cases hdue : s.due with
  | nil =>
    have hbytes : readScript source inBraces here.offset s =
        if inBraces && c == '\x7d' then pure ⟨s.found, here.offset + 1⟩
        else fail here.offset .unopenedBracket := by
      rw [readScript, byteAt?_ascii hpassed hc]
      rcases hcases with (rfl | rfl) | rfl <;> simp only [hdue] <;> rfl
    rw [Script.readClosing, hdue] at hread
    rw [hbytes]
    by_cases hbrace : c = '\x7d'
    · subst hbrace
      cases inBraces with
      | true =>
        refine .value ⟨here, rest, rfl, hpassed, Nat.lt_succ_self _, fun t ht => ?_⟩
        exact h.step (hread.trans ((leaveBraces_found here s outer).trans ht))
      | false =>
        -- Nothing is around the script that the brace could close.
        obtain rfl : outer = [] := by simpa using hbraces
        exact .error (h.scan_eq_error hread) h.isBoundary
    · simp only [beq_false_of_ne hbrace, Bool.and_false, Bool.false_eq_true, if_false] at hread ⊢
      exact .error (h.scan_eq_error hread) h.isBoundary
  | cons d due =>
    have hbytes : readScript source inBraces here.offset s =
        if d == c then
          readScript source inBraces (here.offset + 1)
            { s with due, previous := if c == '\x7d' then .punctuation else .value }
        else fail here.offset .mismatchedBracket := by
      rw [readScript, byteAt?_ascii hpassed hc]
      rcases hcases with (rfl | rfl) | rfl <;> simp only [hdue] <;> rfl
    rw [Script.readClosing, hdue] at hread
    rw [hbytes]
    by_cases hsame : d = c
    · simp only [hsame, beq_self_eq_true, if_true] at hread ⊢
      exact all.script_of_resumesAt hbraces
        ⟨_, rest, offset_advance_ascii here hc, Nat.lt_succ_self _, h.step hread⟩
    · simp only [hsame, beq_false_of_ne hsame, Bool.false_eq_true, if_false] at hread ⊢
      exact .error (h.scan_eq_error hread) h.isBoundary

/-- A string or a template, which opens with a mark. -/
theorem ends_mark (all : AllEnd source (rest.length + 1)) (hbraces : outer.isEmpty = !inBraces)
    (hmark : isQuote c = true)
    (h : Reaches source here ⟨.script s .between, outer⟩ (c :: rest)) :
    Ends source (readScript source inBraces here.offset s)
      (ScriptDone source (rest.length + 1) inBraces outer) := by
  have hc := toNat_lt_of_isQuote hmark
  have hadvance := offset_advance_ascii here hc
  rw [readScript, byteAt?_ascii h.passed_append hc]
  -- A template may hold elements and gives back what it found; a string holds nothing but text.
  by_cases htemplate : c = '\x60'
  · subst htemplate
    have hnext := h.step (t := ⟨.template ⟨here.offset, []⟩ .between, .script s :: outer⟩) rfl
    have hends := all.template false (Nat.lt_succ_self _) h.isBoundary hnext
    rw [Bool.toNat_false, Nat.add_zero, hadvance] at hends
    refine hends.bind fun inner hinner => ?_
    exact all.script_of_resumesAt hbraces (ResumesAt.mono hinner (Nat.le_succ _))
  · have hquote : (c == '"' || c == '\'') = true := by simpa [isQuote, htemplate] using hmark
    have hread : Situation.read ⟨.script s .between, outer⟩ here c =
        s.goOn (.string c here.offset false) outer := by
      simp only [Situation.read, Script.read, Script.readBetween, hquote, if_true]
    have hends := ends_readString hc h.isBoundary (h.step hread)
    rw [Bool.toNat_false, Nat.add_zero, hadvance] at hends
    simp only [hquote, if_true]
    refine hends.bind fun stop hstop => ?_
    exact all.script_of_resumesAt hbraces (hstop.mono (Nat.le_succ _))

/-- A word is read to its end. -/
theorem ends_word (hword : isWordChar c = true)
    (hread : s.readBetween outer here c = s.goOn (.word here.offset) outer)
    (h : Reaches source here ⟨.script s .between, outer⟩ (c :: rest)) :
    Ends source (slice source here.offset (skipWhile source isWordChar here.offset)) fun word =>
      ResumesAt source (rest.length + 1) ⟨.script (s.afterWord word) .between, outer⟩
        (skipWhile source isWordChar here.offset) := by
  -- The first character may be counted as one after the start of the word.
  have hstart := h.replace (t := ⟨.script s (.word here.offset), outer⟩)
    (fun d ds hd => by
      cases hd
      simp [Situation.read, Script.read, hread, hword])
    (by simp)
  have hskip := hstart.skip (p := isWordChar) fun c hc there => by
    simp [Situation.read, Script.read, Script.goOn, hc]
  have hlen : ((c :: rest).dropWhile isWordChar).length < (c :: rest).length :=
    length_dropWhile_lt hword
  have hhead : ∀ d, ((c :: rest).dropWhile isWordChar).head? = some d → isWordChar d = false :=
    not_of_head?_dropWhile
  rw [skipWhile_eq h.passed_append (.of_high fun _ => isWordChar_high),
    slice_since hskip.passed_append h.isBoundary (by simp)]
  refine .value ⟨_, _, rfl, hlen, hskip.replace (fun d ds hd => ?_) fun _ => rfl⟩
  simp [Situation.read, Script.read, hhead d (by rw [hd]; rfl)]

theorem closing?_high (hc : 0x80 ≤ c.toNat) : closing? c = none := by
  unfold closing?
  split <;> first | rfl | exact absurd rfl (ne_of_high hc (by decide))

/-- An opening bracket is neither a blank nor part of a word. -/
theorem plain_of_closing? (h : closing? c = some d) :
    Text.isAsciiBlank c = false ∧ isWordChar c = false := by
  unfold closing? at h
  split at h <;> first | exact ⟨rfl, rfl⟩ | cases h

/-- A character above ASCII is part of a word. -/
theorem ends_high (all : AllEnd source (rest.length + 1)) (hbraces : outer.isEmpty = !inBraces)
    (hc : 0x80 ≤ c.toNat) (h : Reaches source here ⟨.script s .between, outer⟩ (c :: rest)) :
    Ends source (readScript source inBraces here.offset s)
      (ScriptDone source (rest.length + 1) inBraces outer) := by
  obtain ⟨b, hb, hle⟩ := exists_byteAt? h.passed_append hc c.utf8Size_pos
  rw [Nat.add_zero] at hb
  have hread : s.readBetween outer here c = s.goOn (.word here.offset) outer := by
    simp [Script.readBetween, ne_of_high hc, isClosing, isAsciiBlank_high hc, isWordChar_high hc]
  have hbytes : readScript source inBraces here.offset s =
      slice source here.offset (skipWhile source isWordChar here.offset) >>= fun word =>
        readScript source inBraces (skipWhile source isWordChar here.offset)
          (s.afterWord word) := by
    rw [readScript, hb]
    simp [ne_of_high hle, closing?_high hle, isClosing, isAsciiBlank_high hle, isWordChar_high hle]
  rw [hbytes]
  refine (ends_word (isWordChar_high hc) hread h).bind fun word hword => ?_
  exact all.script_of_resumesAt hbraces hword

/-- Opening brackets, blanks, words and operators. -/
theorem ends_plain (all : AllEnd source (rest.length + 1)) (hbraces : outer.isEmpty = !inBraces)
    (hc : c.toNat < 0x80) (hmark : isQuote c = false) (hslash : c ≠ '/')
    (hangle : (c == '<' && s.previous.allowsExpression) = false) (hclosing : isClosing c = false)
    (h : Reaches source here ⟨.script s .between, outer⟩ (c :: rest)) :
    Ends source (readScript source inBraces here.offset s)
      (ScriptDone source (rest.length + 1) inBraces outer) := by
  obtain ⟨hquote, htemplate⟩ : (c == '"' || c == '\'') = false ∧ (c == '\x60') = false :=
    Bool.or_eq_false_iff.1 hmark
  have hgo : ∀ {t : Script},
      Situation.read ⟨.script s .between, outer⟩ here c = t.goOn .between outer →
      ResumesAt source (rest.length + 1) ⟨.script t .between, outer⟩ (here.offset + 1) :=
    fun hread => ⟨_, rest, offset_advance_ascii here hc, Nat.lt_succ_self _, h.step hread⟩
  rw [readScript, byteAt?_ascii h.passed_append hc]
  simp only [hquote, htemplate, beq_false_of_ne hslash, hangle, hclosing, Bool.false_and,
    Bool.false_eq_true, if_false]
  -- An opening bracket is neither a blank nor a character of a word, so it can be asked for first.
  cases hopening : closing? c with
  | some d =>
    obtain ⟨hblank, hword⟩ := plain_of_closing? hopening
    refine all.script_of_resumesAt hbraces (hgo ?_)
    simp [Situation.read, Script.read, Script.readBetween, hquote, htemplate, hslash, hangle,
      hclosing, hblank, hword, hopening]
  | none =>
  cases hblank : Text.isAsciiBlank c with
  | true =>
    refine all.script_of_resumesAt hbraces (hgo ?_)
    simp [Situation.read, Script.read, Script.readBetween, hquote, htemplate, hslash, hangle,
      hclosing, hblank]
  | false =>
  cases hword : isWordChar c with
  | true =>
    have hread : s.readBetween outer here c = s.goOn (.word here.offset) outer := by
      simp [Script.readBetween, hquote, htemplate, hslash, hangle, hclosing, hblank, hword]
    refine (ends_word hword hread h).bind fun word hresumes => ?_
    exact all.script_of_resumesAt hbraces hresumes
  | false =>
    refine all.script_of_resumesAt hbraces (hgo ?_)
    simp [Situation.read, Script.read, Script.readBetween, hquote, htemplate, hslash, hangle,
      hclosing, hblank, hword, hopening]

/-- A script is read to the brace around it or to the end of the text. -/
theorem ends_readScript (all : AllEnd source rest.length) (hbraces : outer.isEmpty = !inBraces)
    (h : Reaches source here ⟨.script s .between, outer⟩ rest) :
    Ends source (readScript source inBraces here.offset s)
      (ScriptDone source rest.length inBraces outer) := by
  cases rest with
  | nil =>
    have hfinish : scan source = Scan.finishScript.atEnd s outer here := h.scan_eq_finish
    rw [Scan.finishScript.atEnd, hbraces, Bool.not_not] at hfinish
    rw [readScript, byteAt?_nil h.passed_append]
    cases inBraces with
    | true => exact .error hfinish h.isBoundary
    | false =>
      cases hdue : s.due with
      | nil =>
        rw [hdue] at hfinish
        exact .value hfinish
      | cons d due =>
        rw [hdue] at hfinish
        exact .error hfinish h.isBoundary
  | cons c rest =>
    -- A byte beyond ASCII begins a character beyond ASCII, which is no mark.
    rcases Nat.lt_or_ge c.toNat 0x80 with hc | hc
    · cases hmark : isQuote c with
      | true => exact ends_mark all hbraces hmark h
      | false =>
      by_cases hslash : c = '/'
      · subst hslash
        exact ends_slash all hbraces h
      by_cases hangle : c = '<' ∧ s.previous.allowsExpression = true
      · obtain ⟨rfl, hallows⟩ := hangle
        exact ends_angle all hbraces hallows h
      cases hclosing : isClosing c with
      | true => exact ends_closing all hbraces hclosing h
      | false => exact ends_plain all hbraces hc hmark hslash (by simpa using hangle) hclosing h
    · exact ends_high all hbraces hc h

end

/-! ### Whole texts -/

/-- All readings end. The induction is on the number of characters that are left: a reading goes on
with another one that has less left, or with one that was shown to end before it. -/
theorem allEnd (source : List Char) (n : Nat) : AllEnd source n := by
  induction n with
  | zero =>
    constructor
    all_goals
      intros
      omega
  | succ n all =>
    exact {
      script := fun hlt => ends_readScript (all.mono (Nat.le_of_lt_succ hlt))
      template := fun _ _ _ _ _ _ _ hlt => ends_readTemplate (all.mono (Nat.le_of_lt_succ hlt))
      element := fun hlt => ends_readElement (all.mono (Nat.le_of_lt_succ hlt))
      tag := fun hlt => ends_readTag (all.mono (Nat.le_of_lt_succ hlt))
      content := fun hlt => ends_readContent (all.mono (Nat.le_of_lt_succ hlt)) }

/-- The byte reader ends on every text and never takes a part that begins or ends outside the text
or inside a character. It finds the elements that `scan` finds, or stops with the same error, at the
boundary of a character of the text. -/
theorem elements_total (source : List Char) :
    (∃ es, (elements source).run = some (.ok es) ∧ scan source = .ok es) ∨
      ∃ e, (elements source).run = some (.error (.error e)) ∧ scan source = .error e ∧
        e.offset ≤ byteLength source ∧ IsBoundary source e.offset := by
  have hscript : Ends source (readScript source false 0 {}) (ScriptDone source _ false []) :=
    (allEnd source (source.length + 1)).script (Nat.lt_succ_self _) rfl (.start source)
  have hends : Ends source (elements source) fun es => scan source = .ok es :=
    hscript.bind fun _ hall => .value hall
  obtain ⟨es, hes, hscan⟩ | ⟨e, he, hscan, hboundary⟩ := hends
  · exact .inl ⟨es, by rw [hes]; rfl, hscan⟩
  · exact .inr ⟨e, by rw [he]; rfl, hscan, hboundary.le, hboundary⟩

end Mockup.Jsx.Source
