import Mockup.Proofs.Jsx.LoneText
import Mockup.Proofs.Jsx.Reaches

/-!
# Parts without elements byte by byte

The byte reader of strings, regular expressions, comments, quoted values, closing tags and literal
texts. It skips two bytes at a backslash. When the second of them is the first byte of a longer
character, it stands inside that character, and goes on byte by byte to its end.

## Main results

* `readString_step`, `readPattern_step`: what both readers do with one character.
* `ends_readString`, `ends_readPattern`, `ends_readBlockComment`: parts of a script.
* `ends_readQuoted`, `ends_readClosingTag`: parts of a tag and of a content.
* `loneText_eq`: the text that an expression stands for.
-/

namespace Mockup.Jsx.Source

open Text (IsBoundary byteLength)

section

variable {source rest : List Char} {here : Cursor} {s : Script} {outer : List Context}
  {start : Nat} {quote c : Char}

/-! ### Strings -/

theorem readString_high {b : Char} {place : Nat} (hquote : quote.toNat < 0x80)
    (hb : byteAt? source place = some b) (hle : 0x80 ≤ b.toNat) :
    readString source quote start place = readString source quote start (place + 1) := by
  rw [readString, hb]
  simp [ne_of_high hle, hquote]

/-- One character of a string: both readers go on, or stop with the same error, or leave the string.
After a backslash the place is one byte ahead. -/
theorem readString_step (hquote : quote.toNat < 0x80) (h : here.passed ++ c :: rest = source)
    (s : Script) (outer : List Context) (start : Nat) (escaped : Bool) :
    (∃ escaped', s.readString outer quote start escaped c =
        s.goOn (.string quote start escaped') outer ∧
      readString source quote start (here.offset + escaped.toNat) =
        readString source quote start ((here.advance c).offset + escaped'.toNat)) ∨
    (s.readString outer quote start escaped c = failAt start .openString ∧
      readString source quote start (here.offset + escaped.toNat) = fail start .openString) ∨
    (s.readString outer quote start escaped c = (s.afterValue []).goOn .between outer ∧
      readString source quote start (here.offset + escaped.toNat) =
        pure (here.advance c).offset) := by
  have hbytes : ∀ place b, byteAt? source place = some b → 0x80 ≤ b.toNat →
      readString source quote start place = readString source quote start (place + 1) :=
    fun _ _ => readString_high hquote
  cases escaped with
  | true => exact .inl ⟨false, rfl, after_escaped h hbytes⟩
  | false =>
    -- Only a character of ASCII can be a mark; the bytes of others are passed over one by one.
    rcases Nat.lt_or_ge c.toNat 0x80 with hc | hc
    · have hunfold := readString.eq_1 source quote start here.offset
      simp only [byteAt?_ascii h hc] at hunfold
      simp only [Script.readString, Bool.toNat_false, Nat.add_zero, hunfold,
        offset_advance_ascii here hc]
      by_cases hback : c = '\\'
      · exact .inl ⟨true, by simp [hback], by simp [hback]⟩
      by_cases hline : c = '\n'
      · exact .inr (.inl (by simp [hline]))
      by_cases hend : c = quote
      · subst hend
        exact .inr (.inr (by simp [hback, hline]))
      · exact .inl ⟨false, by simp [hback, hline, hend], by simp [hback, hline, hend]⟩
    · refine .inl ⟨false, ?_, after_inside h hc hbytes (Nat.zero_le _)⟩
      simp [Script.readString, ne_of_high hc, hquote]

/-- A string is read to its end. -/
theorem ends_readString (hquote : quote.toNat < 0x80) (hstart : IsBoundary source start)
    {escaped : Bool}
    (h : Reaches source here ⟨.script s (.string quote start escaped), outer⟩ rest) :
    Ends source (readString source quote start (here.offset + escaped.toNat))
      (ResumesAt source rest.length ⟨.script (s.afterValue []) .between, outer⟩) := by
  induction rest generalizing here escaped with
  | nil =>
    rw [readString, byteAt?_end h.passed_append]
    exact .error h.scan_eq_finish hstart
  | cons c rest ih =>
    obtain ⟨escaped', hread, heq⟩ | ⟨hread, heq⟩ | ⟨hread, heq⟩ :=
      readString_step hquote h.passed_append s outer start escaped
    · rw [heq]
      exact (ih (h.step hread)).mono fun _ hr => hr.mono (Nat.le_succ _)
    · rw [heq]
      exact .error (h.scan_eq_error hread) hstart
    · rw [heq]
      exact .value ⟨_, rest, rfl, Nat.lt_succ_self _, h.step hread⟩

/-! ### Regular expressions -/

theorem readPattern_high {b : Char} {place : Nat} {inClass : Bool}
    (hb : byteAt? source place = some b) (hle : 0x80 ≤ b.toNat) :
    readPattern source start place inClass = readPattern source start (place + 1) inClass := by
  rw [readPattern, hb]
  simp [ne_of_high hle]

/-- One character of a regular expression: both readers go on, or stop with the same error, or get
to its flags. After a backslash the place is one byte ahead. -/
theorem readPattern_step (h : here.passed ++ c :: rest = source) (s : Script)
    (outer : List Context) (start : Nat) (inClass escaped : Bool) :
    (∃ inClass' escaped', s.readPattern outer start inClass escaped c =
        s.goOn (.pattern start inClass' escaped') outer ∧
      readPattern source start (here.offset + escaped.toNat) inClass =
        readPattern source start ((here.advance c).offset + escaped'.toNat) inClass') ∨
    (s.readPattern outer start inClass escaped c = failAt start .openPattern ∧
      readPattern source start (here.offset + escaped.toNat) inClass = fail start .openPattern) ∨
    (s.readPattern outer start inClass escaped c = (s.afterValue []).goOn .flags outer ∧
      readPattern source start (here.offset + escaped.toNat) inClass =
        pure (skipWhile source Char.isAlpha (here.advance c).offset)) := by
  have hbytes : ∀ place b, byteAt? source place = some b → 0x80 ≤ b.toNat →
      readPattern source start place inClass = readPattern source start (place + 1) inClass :=
    fun _ _ => readPattern_high
  cases escaped with
  | true => exact .inl ⟨inClass, false, rfl, after_escaped h hbytes⟩
  | false =>
    -- Only a character of ASCII can be a mark; the bytes of others are passed over one by one.
    rcases Nat.lt_or_ge c.toNat 0x80 with hc | hc
    · have hunfold := readPattern.eq_1 source start here.offset inClass
      simp only [byteAt?_ascii h hc] at hunfold
      simp only [Script.readPattern, Bool.toNat_false, Nat.add_zero, hunfold,
        offset_advance_ascii here hc]
      by_cases hback : c = '\\'
      · exact .inl ⟨inClass, true, by simp [hback], by simp [hback]⟩
      by_cases hopen : c = '['
      · exact .inl ⟨true, false, by simp [hopen], by simp [hopen]⟩
      by_cases hclose : c = ']'
      · exact .inl ⟨false, false, by simp [hclose], by simp [hclose]⟩
      by_cases hend : c = '/' ∧ inClass = false
      · exact .inr (.inr (by simp [hend]))
      by_cases hline : c = '\n'
      · exact .inr (.inl (by simp [hline]))
      · have hslash : (c == '/' && !inClass) = false := by simpa using hend
        exact .inl ⟨inClass, false, by simp [hback, hopen, hclose, hslash, hline],
          by simp [hback, hopen, hclose, hslash, hline]⟩
    · refine .inl ⟨inClass, false, ?_, after_inside h hc hbytes (Nat.zero_le _)⟩
      simp [Script.readPattern, ne_of_high hc]

/-- A regular expression is read to the end of its flags. -/
theorem ends_readPattern (hstart : IsBoundary source start) {inClass escaped : Bool}
    (h : Reaches source here ⟨.script s (.pattern start inClass escaped), outer⟩ rest) :
    Ends source (readPattern source start (here.offset + escaped.toNat) inClass)
      (ResumesAt source rest.length ⟨.script (s.afterValue []) .between, outer⟩) := by
  induction rest generalizing here inClass escaped with
  | nil =>
    rw [readPattern, byteAt?_end h.passed_append]
    exact .error h.scan_eq_finish hstart
  | cons c rest ih =>
    obtain ⟨inClass', escaped', hread, heq⟩ | ⟨hread, heq⟩ | ⟨hread, heq⟩ :=
      readPattern_step h.passed_append s outer start inClass escaped
    · rw [heq]
      exact (ih (h.step hread)).mono fun _ hr => hr.mono (Nat.le_succ _)
    · rw [heq]
      exact .error (h.scan_eq_error hread) hstart
    · have hflags := h.step hread
      rw [heq, skipWhile_eq hflags.passed_append (.of_high fun _ => isAlpha_high)]
      have hnext := hflags.skip_replace (p := Char.isAlpha)
        (t := ⟨.script (s.afterValue []) .between, outer⟩)
        (fun c hc there => by simp [Situation.read, Script.read, hc, Script.goOn])
        (fun c hc => by simp [Situation.read, Script.read, hc])
        fun _ => rfl
      exact .value ⟨_, _, rfl, Nat.lt_succ_of_le (List.dropWhile_sublist _).length_le, hnext⟩

/-! ### Comments -/

/-- A comment is read to its first end mark. -/
theorem comment_cases
    (h : Reaches source here ⟨.script s (.blockComment start false), outer⟩ rest) :
    (∃ before after, Text.splitAt? ['*', '/'] rest = some (before, after) ∧
      Reaches source (here.after (before ++ ['*', '/'])) ⟨.script s .between, outer⟩ after) ∨
    (Text.splitAt? ['*', '/'] rest = none ∧ scan source = failAt start .openComment) := by
  induction rest generalizing here with
  | nil => exact .inr ⟨rfl, h.scan_eq_finish⟩
  | cons c rest ih =>
    rw [Text.splitAt?]
    split
    · next hprefix =>
      obtain ⟨after, hafter⟩ := List.isPrefixOf_iff_prefix.1 hprefix
      rw [← hafter] at h ⊢
      exact .inl ⟨[], after, rfl, h.reads (.cons rfl (.single rfl))⟩
    · next hprefix =>
      have hnext := h.step (t := ⟨.script s (.blockComment start (c == '*')), outer⟩) rfl
      -- No end mark begins here, so that a star does not count.
      have hplain : Reaches source (here.advance c) ⟨.script s (.blockComment start false), outer⟩
          rest := by
        refine hnext.replace ?_ fun _ => rfl
        rintro d ds rfl
        have hmark : ¬(c = '*' ∧ d = '/') := by
          rintro ⟨rfl, rfl⟩
          exact hprefix rfl
        simp [Situation.read, Script.read, hmark]
      obtain ⟨before, after, hsplit, hreaches⟩ | ⟨hsplit, hscan⟩ := ih hplain
      · exact .inl ⟨c :: before, after, by rw [hsplit]; rfl, hreaches⟩
      · exact .inr ⟨by rw [hsplit]; rfl, hscan⟩

/-- A comment is read to its end. -/
theorem ends_readBlockComment (hstart : IsBoundary source start)
    (hplace : here.offset = start + 2)
    (h : Reaches source here ⟨.script s (.blockComment start false), outer⟩ rest) :
    Ends source (readBlockComment source start)
      (ResumesAt source (rest.length + 1) ⟨.script s .between, outer⟩) := by
  rw [readBlockComment, ← hplace, textFrom_eq h.passed_append, pure_bind]
  obtain ⟨before, after, hsplit, hreaches⟩ | ⟨hsplit, hscan⟩ := comment_cases h
  · simp only [find?, hsplit, Option.map_some]
    have hrest := Text.eq_append_of_splitAt? hsplit
    refine .value ⟨_, after, ?_, ?_, hreaches⟩
    · rw [Cursor.offset_after, Text.byteLength_append, ← Nat.add_assoc]
      rfl
    · rw [hrest]
      simp
      omega
  · simp only [find?, hsplit, Option.map_none]
    exact .error hscan hstart

/-! ### Quoted values and closing tags -/

/-- A text from its first character `d` on. -/
theorem dropWhile_ne_cases (d : Char) (cs : List Char) :
    cs.dropWhile (· != d) = [] ∨ ∃ after, cs.dropWhile (· != d) = d :: after := by
  cases h : cs.dropWhile (· != d) with
  | nil => exact .inl rfl
  | cons e after =>
    have hhead := List.head?_dropWhile_not (· != d) cs
    obtain rfl : e = d := by simpa [h] using hhead
    exact .inr ⟨after, rfl⟩

/-- The place of a character. -/
theorem find?_singleton (d : Char) (cs : List Char) :
    find? [d] cs =
      (cs.dropWhile (· != d)).head?.map fun _ => byteLength (cs.takeWhile (· != d)) := by
  induction cs with
  | nil => rfl
  | cons c cs ih =>
    by_cases hc : c = d
    · simp [find?, Text.splitAt?, hc]
    · have hstep : find? [d] (c :: cs) = (find? [d] cs).map (c.utf8Size + ·) := by
        simp [find?, Text.splitAt?, Ne.symm hc, Function.comp_def]
      simp [hstep, ih, hc, Function.comp_def]

/-- A quoted value is read to its closing quote. -/
theorem ends_readQuoted {t : OpenTag} {a : OpenAttribute} (hquote : quote.toNat < 0x80)
    (hstart : IsBoundary source start) (hplace : here.offset = start + 1)
    (h : Reaches source here ⟨.tag t (.quoted a quote start), outer⟩ rest) :
    Ends source (readQuoted source quote start) fun value =>
      ResumesAt source rest.length
        ⟨.tag (t.addAttribute a value.stop (some (.quoted value.value))) .between, outer⟩
        value.stop := by
  have hskip := h.skip (p := (· != quote)) fun c hc there => by
    simp_all [Situation.read, OpenTag.read, OpenTag.goOn]
  have hbytes : bytesFrom source (start + 1) = pure (bytesOf rest) := by
    have hle : here.offset ≤ (bytesOf source).length := by
      rw [length_bytesOf]
      exact h.isBoundary.le
    rw [bytesFrom, ← hplace, if_pos hle, drop_bytesOf h.passed_append]
  rw [readQuoted, hbytes, pure_bind, findIdx?_bytesOf hquote]
  obtain hnone | ⟨after, hsome⟩ := dropWhile_ne_cases quote rest
  · rw [hnone] at hskip ⊢
    exact .error hskip.scan_eq_finish hstart
  · rw [hsome] at hskip ⊢
    have hstop : start + 1 + byteLength (rest.takeWhile (· != quote)) =
        (here.after (rest.takeWhile (· != quote))).offset := by
      rw [Cursor.offset_after, hplace]
    have hslice : slice source (start + 1) (here.after (rest.takeWhile (· != quote))).offset =
        pure ((here.after (rest.takeWhile (· != quote))).since (start + 1)) := by
      rw [← hplace]
      exact slice_since hskip.passed_append h.isBoundary (by simp)
    simp only [List.head?_cons, Option.map_some, hstop, hslice, pure_bind]
    have hlen : after.length < rest.length := by
      have hsub := (List.dropWhile_sublist (· != quote) (l := rest)).length_le
      simp only [hsome, List.length_cons] at hsub
      exact hsub
    refine .value ⟨_, after, offset_advance_ascii _ hquote, hlen, hskip.step ?_⟩
    simp [Situation.read, OpenTag.read, OpenTag.goOn]

/-- A closing tag is read to its end, and its name decides whether it closes the element. -/
theorem ends_readClosingTag {e : OpenElement}
    (h : Reaches source here ⟨.content e .between, outer⟩ ('<' :: '/' :: rest)) :
    Ends source (readClosingTag source here.offset) fun closing =>
      if closing.value = e.tag.name then
        ∀ t, leave [e.tag.element e.openEnd closing.stop false] outer = .ok t →
          ResumesAt source rest.length t closing.stop
      else scan source = failAt here.offset (.mismatchedTag closing.value e.tag.name) := by
  have hopen : Reaches source (here.after ['<', '/'])
      ⟨.content e (.closing here.offset), outer⟩ rest :=
    h.reads (.cons rfl (.single rfl))
  have hskip := hopen.skip (p := (· != '>')) fun c hc there => by
    simp_all [Situation.read, OpenElement.read, OpenElement.goOn]
  rw [readClosingTag, textFrom_eq h.passed_append, pure_bind, find?_singleton]
  have hdrop : ('<' :: '/' :: rest).dropWhile (· != '>') = rest.dropWhile (· != '>') := rfl
  have htake : ('<' :: '/' :: rest).takeWhile (· != '>') =
      '<' :: '/' :: rest.takeWhile (· != '>') := rfl
  rw [hdrop, htake]
  -- Without a closing bracket the text ends in the tag, and with one the name before it decides.
  obtain hnone | ⟨after, hsome⟩ := dropWhile_ne_cases '>' rest
  · rw [hnone] at hskip ⊢
    exact .error hskip.scan_eq_finish h.isBoundary
  · rw [hsome] at hskip ⊢
    have hopened : (here.after ['<', '/']).offset = here.offset + 2 := rfl
    have hstop : here.offset + byteLength ('<' :: '/' :: rest.takeWhile (· != '>')) =
        ((here.after ['<', '/']).after (rest.takeWhile (· != '>'))).offset := by
      rw [← Cursor.offset_after]
      rfl
    have hslice := slice_since hskip.passed_append hopen.isBoundary (by simp)
    rw [hopened] at hslice
    have hlen : after.length < rest.length := by
      have hsub := (List.dropWhile_sublist (· != '>') (l := rest)).length_le
      rwa [hsome] at hsub
    simp only [List.head?_cons, Option.map_some, hstop, hslice, pure_bind]
    generalize (here.after ['<', '/']).after (rest.takeWhile (· != '>')) = there at hskip ⊢
    have hread : Situation.read ⟨.content e (.closing here.offset), outer⟩ there '>' =
      e.close here.offset outer there := rfl
    apply Ends.value
    split
    · next hname =>
      intro t ht
      exact ⟨_, after, rfl, hlen, hskip.step (hread.trans ((if_pos hname).trans ht))⟩
    · next hname => exact hskip.scan_eq_error (hread.trans (if_neg hname))

end

/-! ### Literal texts -/

theorem toNat_lt_of_isQuote {c : Char} (h : isQuote c = true) : c.toNat < 0x80 := by
  simp only [isQuote, Bool.or_eq_true, beq_iff_eq] at h
  rcases h with (rfl | rfl) | rfl <;> decide

/-- A literal text stands between two equal marks. -/
theorem exists_of_loneText? {expression text : List Char} (h : loneText? expression = some text) :
    ∃ q inner, isQuote q = true ∧ Text.trimmed expression = q :: (inner ++ [q]) := by
  unfold loneText? at h
  split at h
  · next rest heq =>
    rw [heq]
    split at h
    · next s hs =>
      obtain ⟨front, rfl, -⟩ := Denotes.of_unquote? hs
      exact ⟨'"', front, rfl, rfl⟩
    · cases h
  · next rest heq =>
    obtain ⟨rfl, -⟩ := eq_concat_of_plainText? h
    exact ⟨'\'', _, rfl, heq⟩
  · next rest heq =>
    obtain ⟨rfl, -⟩ := eq_concat_of_plainText? h
    exact ⟨'\x60', _, rfl, heq⟩
  · cases h

/-- What stands between two marks is told from the text with the marks. -/
theorem markedText?_eq {expression inner : List Char} {q : Char} (hq : isQuote q = true)
    (h : Text.trimmed expression = q :: (inner ++ [q])) :
    markedText? q (q :: (inner ++ [q])) inner = loneText? expression := by
  have hplain : ∀ isSpecial : List Char → Bool, plainText? q isSpecial (inner ++ [q]) =
      if isSpecial inner then none else some inner := by
    intro isSpecial
    cases hspecial : isSpecial inner <;> simp [plainText?, hspecial]
  simp only [isQuote, Bool.or_eq_true, beq_iff_eq] at hq
  rcases hq with (rfl | rfl) | rfl
  · simp only [markedText?, loneText?, h]
    rfl
  · simp only [markedText?, loneText?, h, hplain]
    rfl
  · simp only [markedText?, loneText?, h, hplain, Bool.or_eq_true, ite_or]
    rfl

/-- A text between two marks is read without a fault. -/
theorem loneText_of_marks {expression inner : List Char} {q : Char} (hq : isQuote q = true)
    (h : Text.trimmed expression = q :: (inner ++ [q])) :
    loneText expression = pure (loneText? expression) := by
  have hascii := toNat_lt_of_isQuote hq
  have hlength : byteLength (q :: (inner ++ [q])) = byteLength inner + 2 := by
    simp [Text.utf8Size_of_toNat_lt hascii]
    omega
  have hinner : Text.HasAt (q :: (inner ++ [q])) 1 inner :=
    ⟨[q], [q], rfl, by simp [Text.utf8Size_of_toNat_lt hascii]⟩
  have hstop : byteLength (q :: (inner ++ [q])) - 1 = 1 + byteLength inner := by omega
  have hslice := slice_eq hinner.isBoundary hinner.isBoundary_stop (Nat.le_add_right ..)
  rw [hinner.slice, ← hstop] at hslice
  -- Both marks are single bytes, so the first and the last byte are the marks themselves.
  have hstart : Cursor.start.passed ++ q :: (inner ++ [q]) = q :: (inner ++ [q]) := rfl
  have hfirst : byteAt? (q :: (inner ++ [q])) 0 = some q := byteAt?_ascii hstart hascii
  have hlast : byteAt? (q :: (inner ++ [q])) (byteLength (q :: (inner ++ [q])) - 1) = some q := by
    have hplace : byteLength (q :: (inner ++ [q])) - 1 =
        (Cursor.start.after (q :: inner)).offset := by
      rw [hstop, Cursor.offset_after, Text.byteLength_cons, Text.utf8Size_of_toNat_lt hascii]
      exact (Nat.zero_add _).symm
    have hpassed : (Cursor.start.after (q :: inner)).passed ++ [q] = q :: (inner ++ [q]) := by simp
    rw [hplace]
    exact byteAt?_ascii hpassed hascii
  have hmarks : (q != q || !isQuote q) = false := by simp [hq]
  simp only [loneText, h, byteAt, hfirst, hlast, hslice, hmarks, pure_bind, markedText?_eq hq h]
  rw [if_neg (by omega), if_neg Bool.false_ne_true]

/-- The text of an expression is told in the same way, without a fault. -/
theorem loneText_eq (expression : List Char) :
    loneText expression = pure (loneText? expression) := by
  by_cases hmarks : ∃ q inner, isQuote q = true ∧ Text.trimmed expression = q :: (inner ++ [q])
  · obtain ⟨q, inner, hq, h⟩ := hmarks
    exact loneText_of_marks hq h
  have hnone : loneText? expression = none := by
    rw [Option.eq_none_iff_forall_ne_some]
    exact fun text htext => hmarks (exists_of_loneText? htext)
  rw [hnone]
  by_cases hshort : byteLength (Text.trimmed expression) < 2
  · simp only [loneText, if_pos hshort]
  obtain ⟨c, rest, hfront⟩ : ∃ c rest, Text.trimmed expression = c :: rest := by
    refine List.exists_cons_of_ne_nil fun h => hshort ?_
    simp [h]
  obtain ⟨front, d, hback⟩ : ∃ front d, Text.trimmed expression = front ++ [d] :=
    ⟨_, _, (List.dropLast_concat_getLast (by simp [hfront])).symm⟩
  have hstart : Cursor.start.passed ++ c :: rest = Text.trimmed expression := hfront.symm
  have hstop : (Cursor.start.after front).passed ++ [d] = Text.trimmed expression := by
    simpa using hback.symm
  have hlength : ((Cursor.start.after front).advance d).offset =
      byteLength (Text.trimmed expression) := by
    rw [hback, Cursor.offset_advance, Cursor.offset_after, Text.byteLength_append, Nat.add_assoc]
    exact Nat.zero_add _
  obtain ⟨first, hfirst, hshows⟩ : ∃ b, byteAt? (Text.trimmed expression) 0 = some b ∧ Shows b c :=
    exists_shows hstart
  obtain ⟨last, hlast, hshows'⟩ := exists_shows_last hstop
  rw [hlength] at hlast
  have hdiffer : (first != last || !isQuote first) = true := by
    cases hq : isQuote first with
    | false => exact Bool.or_true _
    | true =>
      have hascii := toNat_lt_of_isQuote hq
      rw [Bool.or_eq_true, bne_iff_ne]
      refine .inl fun heq => ?_
      obtain rfl := (hshows.eq_iff hascii).1 rfl
      obtain rfl := (hshows'.eq_iff hascii).1 heq.symm
      rw [hfront] at hback
      cases front with
      | nil =>
        -- A single mark is shorter than two bytes.
        obtain rfl := (List.cons.inj hback).2
        rw [hfront] at hshort
        simp [Text.utf8Size_of_toNat_lt hascii] at hshort
      | cons e front =>
        obtain ⟨rfl, rfl⟩ := List.cons.inj hback
        exact hmarks ⟨_, front, hq, hfront⟩
  simp only [loneText, if_neg hshort, byteAt, hfirst, hlast, pure_bind, if_pos hdiffer]

end Mockup.Jsx.Source
