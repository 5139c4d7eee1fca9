import Mockup.Proofs.Jsx.Denotes
import Mockup.Proofs.Jsx.Origin

/-!
# Braces with one text in them

The braces of a value may hold one literal text and nothing else, in double quotes, in single quotes
or between backticks. Such a text is a token: a script that reads it is calm after it if it was
before, and finds no element in it. That no line ends in single quotes is not told from the text
alone, but from the script that reads it.

## Main results

* `Situation.Calm.of_reads_token`: a script is calm after a token.
* `Situation.Calm.token_of_reads`, `ValueRead.token`: what is read as one literal text is a token.
* `ValueRead.inside_eq_nil`: there are no elements inside a value with a text.
-/

namespace Mockup.Jsx

/-! ### Blanks -/

/-- A blank is neither a quote nor a bracket and opens nothing. -/
theorem isQuiet_of_isBlank {c : Char} (h : Text.isBlank c = true) : isQuiet c = true := by
  have hne {d : Char} (hd : Text.isBlank d = false) : c ≠ d := by
    rintro rfl
    simp [h] at hd
  simp [isQuiet, isClosing, closing?, hne (d := '"') (by decide), hne (d := '\'') (by decide),
    hne (d := '\x60') (by decide), hne (d := '/') (by decide), hne (d := '<') (by decide),
    hne (d := '(') (by decide), hne (d := ')') (by decide), hne (d := '[') (by decide),
    hne (d := ']') (by decide), hne (d := '\x7b') (by decide), hne (d := '\x7d') (by decide)]

/-! ### Strings -/

section Strings

variable {s : Script} {outer : List Context} {quote : Char} {start : Nat} {here : Cursor}
  {cs : List Char}

/-- A character other than the quote, a backslash and the end of a line leaves a string open. -/
theorem read_plain {c : Char} (there : Cursor) (hquote : c ≠ quote) (hback : c ≠ '\\')
    (hline : c ≠ '\n') :
    Situation.read ⟨.script s (.string quote start false), outer⟩ there c =
      .ok ⟨.script s (.string quote start false), outer⟩ := by
  simp [Situation.read, Script.read, Script.readString, Script.goOn, hquote, hback, hline]

/-- A text leaves the string open that it stands in if what ends a string is escaped. -/
theorem Shielded.reads_string (h : Shielded [quote, '\n'] cs) :
    Situation.Reads ⟨.script s (.string quote start false), outer⟩ here cs
      ⟨.script s (.string quote start false), outer⟩ := by
  induction h generalizing here with
  | nil => exact .nil _ _
  | self hstop hback _ ih =>
    simp only [List.mem_cons, List.not_mem_nil, or_false, not_or] at hstop
    exact .cons (read_plain here hstop.1 hback hstop.2) ih
  | pair _ ih => exact .cons rfl (.cons rfl ih)

/-- Without quotes and backslashes a string is read only if no line ends in it. -/
theorem Situation.Reads.line_notMem {t : Situation}
    (h : Situation.Reads ⟨.script s (.string quote start false), outer⟩ here cs t)
    (hplain : ∀ c ∈ cs, c ≠ quote ∧ c ≠ '\\') : '\n' ∉ cs := by
  induction cs generalizing here with
  | nil => exact List.not_mem_nil
  | cons c cs ih =>
    obtain ⟨m, hm, hrest⟩ := h.of_cons
    obtain ⟨hquote, hback⟩ := hplain c List.mem_cons_self
    have hline : c ≠ '\n' := by
      rintro rfl
      simp [Situation.read, Script.read, Script.readString] at hm
    cases hm.symm.trans (read_plain here hquote hback hline)
    rw [List.mem_cons, not_or]
    exact ⟨hline.symm, ih hrest fun d hd => hplain d (List.mem_cons_of_mem _ hd)⟩

end Strings

/-! ### Templates -/

section Templates

variable {t : Template} {outer : List Context} {part : Template.Part} {cs : List Char}

/-- A part of a template in which only some characters have a meaning. -/
def Template.Part.Plain (part : Template.Part) (cs : List Char) : Prop :=
  part = .between ∨ (part = .dollar ∧ cs.head? ≠ some '\x7b')

/-- A plain part is left for the part after a character without a meaning. -/
theorem read_template {c : Char} (hpart : part.Plain (c :: cs)) (here : Cursor)
    (htick : c ≠ '\x60') (hback : c ≠ '\\') :
    Situation.read ⟨.template t part, outer⟩ here c =
      .ok ⟨.template t (if c = '$' then .dollar else .between), outer⟩ := by
  have hbetween : t.readBetween outer c =
      .ok ⟨.template t (if c = '$' then .dollar else .between), outer⟩ := by
    by_cases hdollar : c = '$' <;>
      simp [Template.readBetween, Template.goOn, htick, hback, hdollar]
  rcases hpart with rfl | ⟨rfl, hhead⟩
  · exact hbetween
  · have hbrace : c ≠ '\x7b' := by simpa using hhead
    simpa [Situation.read, Template.read, hbrace] using hbetween

/-- A dollar sign without a brace after it opens nothing. -/
theorem plain_of_contains {c : Char}
    (h : Text.contains ['$', '\x7b'] (c :: cs) = false) :
    Template.Part.Plain (if c = '$' then .dollar else .between) cs ∧
      Text.contains ['$', '\x7b'] cs = false := by
  unfold Text.contains Text.splitAt? at h
  split at h
  · simp at h
  · next hprefix =>
    refine ⟨?_, by simpa [Text.contains] using h⟩
    by_cases hdollar : c = '$'
    · rw [if_pos hdollar]
      refine .inr ⟨rfl, fun hhead => hprefix ?_⟩
      obtain ⟨more, rfl⟩ := List.head?_eq_some_iff.1 hhead
      simp [hdollar]
    · rw [if_neg hdollar]
      exact .inl rfl

/-- A plain part is left for the part in which a character is escaped at a backslash. -/
theorem read_template_backslash (hpart : part.Plain ('\\' :: cs)) (here : Cursor) :
    Situation.read ⟨.template t part, outer⟩ here '\\' = .ok ⟨.template t .escaped, outer⟩ := by
  rcases hpart with rfl | ⟨rfl, -⟩ <;> rfl

/-- Without substitutions a template stays open if what ends a template is escaped, and nothing is
found in it. -/
theorem Shielded.exists_reads_template (h : Shielded ['\x60'] cs)
    (hcontains : Text.contains ['$', '\x7b'] cs = false) (hpart : part.Plain cs) (here : Cursor) :
    ∃ part', Situation.Reads ⟨.template t part, outer⟩ here cs ⟨.template t part', outer⟩ ∧
      part'.Plain [] := by
  induction h generalizing part here with
  | nil => exact ⟨part, .nil _ _, hpart⟩
  | @self c cs hstop hback _ ih =>
    obtain ⟨hnext, hcontains⟩ := plain_of_contains hcontains
    obtain ⟨part', hrest, hend⟩ := ih hcontains hnext (here.advance c)
    exact ⟨part', .cons (read_template hpart here (by simpa using hstop) hback) hrest, hend⟩
  | @pair c cs _ ih =>
    obtain ⟨-, hcontains⟩ := plain_of_contains hcontains
    obtain ⟨-, hcontains⟩ := plain_of_contains hcontains
    obtain ⟨part', hrest, hend⟩ :=
      ih hcontains (.inl rfl) ((here.advance '\\').advance c)
    exact ⟨part', .cons (read_template_backslash hpart here) (.cons rfl hrest), hend⟩

end Templates

/-! ### Literal texts -/

section LoneText

variable {due : List Char} {found : List Element} {outer : List Context} {s t : Situation}
  {here : Cursor} {cs text : List Char}

/-- The text between two equal marks. -/
theorem eq_concat_of_plainText? {mark : Char} {isSpecial : List Char → Bool}
    (h : plainText? mark isSpecial cs = some text) :
    cs = text ++ [mark] ∧ isSpecial text = false := by
  unfold plainText? at h
  simp only [Option.ite_none_right_eq_some, Option.some.injEq] at h
  obtain ⟨⟨hlast, hspecial⟩, rfl⟩ := h
  obtain ⟨front, rfl⟩ := List.getLast?_eq_some_iff.1 hlast
  simpa using hspecial

/-- A calm script reads a quote and goes on with a string. -/
theorem Situation.Calm.exists_reads_string {quote : Char} {content rest : List Char}
    (hs : s.Calm due found outer) (hquote : quote = '"' ∨ quote = '\'')
    (h : s.Reads here (quote :: (content ++ rest)) t) : ∃ (previous : Previous) (m : Situation),
      Situation.Reads ⟨.script ⟨due, previous, found⟩ (.string quote here.offset false), outer⟩
        (here.advance quote) content m ∧
      m.Reads ((here.advance quote).after content) rest t := by
  obtain ⟨m, hm, hrest⟩ := h.of_cons
  obtain ⟨previous, hread⟩ :=
    hs.read_eq (c := quote) here (by rcases hquote with rfl | rfl <;> decide)
  have henter : Script.readBetween ⟨due, previous, found⟩ outer here quote =
      .ok ⟨.script ⟨due, previous, found⟩ (.string quote here.offset false), outer⟩ := by
    rcases hquote with rfl | rfl <;> rfl
  cases hm.symm.trans (hread.trans henter)
  obtain ⟨n, hn, hlast⟩ := hrest.of_append
  exact ⟨previous, n, hn, hlast⟩

/-- A script is calm after a token if it was before. -/
theorem Situation.Calm.of_reads_token {token : List Char} (hs : s.Calm due found outer)
    (h : s.Reads here token t) (htoken : Token token text) : t.Calm due found outer := by
  cases htoken with
  | @string quote content text hquote hdenotes =>
    obtain ⟨previous, n, hn, hlast⟩ := hs.exists_reads_string hquote h
    -- What a script reads is determined, so the last character closes the string that was opened.
    cases hn.unique (hdenotes.shielded_string hquote).reads_string
    have hclose : Situation.read
        ⟨.script ⟨due, previous, found⟩ (.string quote here.offset false), outer⟩
        ((here.advance quote).after content) quote =
          .ok ⟨.script (Script.afterValue ⟨due, previous, found⟩ []) .between, outer⟩ := by
      rcases hquote with rfl | rfl <;> rfl
    cases hlast.unique (.single hclose)
    exact ⟨.value, .between, by simp [Script.afterValue], .inl rfl⟩
  | @template content text hcontains hdenotes =>
    obtain ⟨m, hm, hrest⟩ := h.of_cons
    obtain ⟨previous, hread⟩ := hs.read_eq (c := '\x60') here (by decide)
    cases hm.symm.trans hread
    obtain ⟨n, hn, hlast⟩ := hrest.of_append
    obtain ⟨part, hpart, hend⟩ := hdenotes.shielded_template.exists_reads_template hcontains
      (.inl rfl) (here.advance '\x60')
    cases hn.unique hpart
    refine ⟨.value, .between, hlast.unique (.single ?_), .inl rfl⟩
    rcases hend with rfl | ⟨rfl, -⟩ <;>
      simp [Situation.read, Template.read, Template.readBetween, leave, Script.afterValue,
        Script.goOn]

/-- What a calm script reads, and what is one literal text, is one token. -/
theorem Situation.Calm.token_of_reads (hs : s.Calm due found outer)
    (h : s.Reads here (Text.trimmed cs) t) (htext : loneText? cs = some text) :
    Token (Text.trimmed cs) text := by
  unfold loneText? at htext
  split at htext
  · next rest htrimmed =>
    split at htext
    · next s hunquote =>
      cases htext
      obtain ⟨content, rfl, hdenotes⟩ := Denotes.of_unquote? hunquote
      rw [htrimmed]
      exact .string (.inl rfl) hdenotes
    · cases htext
  · next rest htrimmed =>
    obtain ⟨rfl, hspecial⟩ := eq_concat_of_plainText? htext
    have hplain : ∀ c ∈ text, c ≠ '\'' ∧ c ≠ '\\' := by simpa using hspecial
    rw [htrimmed] at h ⊢
    obtain ⟨previous, n, hn, -⟩ := hs.exists_reads_string (.inr rfl) h
    -- The text alone does not tell that no line ends in it, but the script that reads it does.
    have hline := hn.line_notMem hplain
    refine .string (.inr rfl) (.of_plain fun c hc => ⟨?_, (hplain c hc).2⟩)
    rw [List.mem_cons, List.mem_singleton, not_or]
    exact ⟨(hplain c hc).1, fun heq => hline (heq ▸ hc)⟩
  · next rest htrimmed =>
    obtain ⟨rfl, hspecial⟩ := eq_concat_of_plainText? htext
    simp only [Bool.or_eq_false_iff] at hspecial
    rw [htrimmed]
    exact .template hspecial.2 (.of_plain (by simpa using hspecial.1))
  · cases htext

/-- What a calm script reads is trimmed by reading blanks on both sides. -/
theorem Situation.Calm.exists_reads_trimmed (hs : s.Calm due found outer) (h : s.Reads here cs t) :
    ∃ (m n : Situation) (there there' : Cursor) (trail : List Char), m.Calm due found outer ∧
      m.Reads there (Text.trimmed cs) n ∧ n.Reads there' trail t ∧ Balanced trail := by
  obtain ⟨lead, trail, heq, hlead, htrail⟩ := Text.exists_eq_append_trimmed cs
  have quiet {bs : List Char} (hbs : ∀ c ∈ bs, Text.isBlank c = true) : Balanced bs :=
    .quiet fun c hc => isQuiet_of_isBlank (hbs c hc)
  rw [heq] at h
  obtain ⟨m, hm, hrest⟩ := h.of_append
  obtain ⟨m', hm', hcalm⟩ := quiet hlead due found outer s here hs
  obtain rfl := hm.unique hm'
  obtain ⟨n, hn, hlast⟩ := hrest.of_append
  exact ⟨m, n, _, _, trail, hcalm, hn, hlast, quiet htrail⟩

/-- A script that reads a literal text and nothing else finds no element in it. -/
theorem Situation.Calm.of_reads_loneText (hs : s.Calm due found outer) (h : s.Reads here cs t)
    (htext : loneText? cs = some text) : t.Calm due found outer := by
  obtain ⟨m, n, there, there', trail, hm, htrimmed, hlast, htrail⟩ := hs.exists_reads_trimmed h
  have hn := hm.of_reads_token htrimmed (hm.token_of_reads htrimmed htext)
  obtain ⟨t', ht', hend⟩ := htrail due found outer n there' hn
  obtain rfl := hlast.unique ht'
  exact hend

/-- The value of an attribute that stands for a text is one token between blanks. -/
theorem ValueRead.token {tag : OpenTag} {a : OpenAttribute} {inside : List Element}
    (h : ValueRead tag outer a inside (some (.braced cs))) (htext : loneText? cs = some text) :
    Token (Text.trimmed cs) text := by
  obtain ⟨start, there, script, part, -, hreads⟩ := h
  obtain ⟨m, n, _, _, _, hm, htrimmed, -⟩ := (calm_between {} _).exists_reads_trimmed hreads
  exact hm.token_of_reads htrimmed htext

/-- There are no elements inside the value of an attribute that stands for a text. -/
theorem ValueRead.inside_eq_nil {tag : OpenTag} {a : OpenAttribute} {inside : List Element}
    {value : Value} (h : ValueRead tag outer a inside (some value))
    (htext : value.text? = some text) : inside = [] := by
  cases value with
  | quoted cs => exact h
  | braced cs =>
    obtain ⟨start, there, script, part, rfl, hreads⟩ := h
    obtain ⟨previous, part', heq, -⟩ := (calm_between {} _).of_reads_loneText hreads htext
    cases heq
    rfl

end LoneText

end Mockup.Jsx
