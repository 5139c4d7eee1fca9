import Mockup.Proofs.Jsx.Braces
import Mockup.Proofs.Jsx.ByteScan

/-!
# Values that are one token

A braced value that stands for a text has one token in its braces and blanks around it. The byte
reader that begins at the first byte of the token, as the reader of a script does there, ends after
its last byte, and finds no element on the way.

* `Source.readToken` — the string or the template whose mark stands at a place.
* `OneToken source a cs text` — the code `cs` in the braces of an attribute is one token.

## Main results

* `Token.readToken_eq`: a token is read from its first byte to its last one.
* `exists_oneToken`: a braced value that stands for a text is one token.
-/

namespace Mockup.Jsx

open Text (HasAt byteLength)

namespace Source

/-- Reads the string or the template with a mark from a place inside it. -/
def readMarked (source : Source) (mark : Char) (start place : Nat) :
    Reading (Piece (List Element)) :=
  if mark == '\x60' then source |>.readTemplate start place []
  else do
    let stop ← source.readString mark start place
    pure ⟨[], stop⟩

/-- Reads the string or the template whose mark stands at a place, as a script does. -/
def readToken (source : Source) (place : Nat) : Reading (Piece (List Element)) := do
  let mark ← source.byteAt place
  source.readMarked mark place (place + 1)

section

variable {source rest cs : List Char} {here : Cursor} {c quote : Char} {start : Nat}
  {found : List Element}

/-! ### Strings -/

/-- A string goes on after a character that stands for itself. -/
theorem readString_self (hquote : quote.toNat < 0x80) (h : here.passed ++ c :: rest = source)
    (hstop : c ∉ [quote, '\n']) (hback : c ≠ '\\') :
    readString source quote start here.offset =
      readString source quote start (here.advance c).offset := by
  simp only [List.mem_cons, List.not_mem_nil, or_false, not_or] at hstop
  -- A character of ASCII is one byte; of any other one no byte has a meaning.
  rcases Nat.lt_or_ge c.toNat 0x80 with hc | hc
  · rw [readString, byteAt?_ascii h hc, offset_advance_ascii here hc]
    simp [hback, hstop]
  · exact after_inside h hc (fun _ _ => readString_high hquote) (Nat.zero_le _)

/-- A string goes on after a backslash and the character after it. -/
theorem readString_pair (hquote : quote.toNat < 0x80)
    (h : here.passed ++ '\\' :: c :: rest = source) :
    readString source quote start here.offset =
      readString source quote start ((here.advance '\\').advance c).offset := by
  have hnext : (here.advance '\\').passed ++ c :: rest = source := passed_advance_append h
  rw [← after_escaped hnext fun _ _ => readString_high hquote, readString,
    byteAt?_ascii h (by decide), offset_advance_ascii here (by decide)]
  rfl

/-- A string is read up to the first quote that is not escaped. -/
theorem readString_of_shielded (hquote : quote = '"' ∨ quote = '\'')
    (hcs : Shielded [quote, '\n'] cs) (h : here.passed ++ (cs ++ quote :: rest) = source) :
    readString source quote start here.offset = pure ((here.after cs).offset + 1) := by
  have hascii : quote.toNat < 0x80 := by rcases hquote with rfl | rfl <;> decide
  induction hcs generalizing here with
  | nil =>
    rw [readString, byteAt?_ascii h hascii]
    rcases hquote with rfl | rfl <;> rfl
  | self hstop hback _ ih =>
    rw [readString_self hascii h hstop hback]
    exact ih (passed_advance_append h)
  | pair _ ih =>
    rw [readString_pair hascii h]
    exact ih (passed_advance_append (passed_advance_append h))

/-! ### Templates -/

/-- A template goes on after a backslash and the character after it. -/
theorem readTemplate_pair (h : here.passed ++ '\\' :: c :: rest = source) :
    readTemplate source start here.offset found =
      readTemplate source start ((here.advance '\\').advance c).offset found := by
  have hnext : (here.advance '\\').passed ++ c :: rest = source := passed_advance_append h
  rw [← after_escaped (f := fun place => readTemplate source start place found) hnext
    fun _ _ => readTemplate_high, readTemplate, byteAt?_ascii h (by decide),
    offset_advance_ascii here (by decide)]
  rfl

/-- A template without substitutions is read up to the first backtick that is not escaped. -/
theorem readTemplate_of_shielded (hcs : Shielded ['\x60'] cs)
    (hcontains : Text.contains ['$', '\x7b'] cs = false)
    (h : here.passed ++ (cs ++ '\x60' :: rest) = source) :
    readTemplate source start here.offset found = pure ⟨found, (here.after cs).offset + 1⟩ := by
  induction hcs generalizing here with
  | nil =>
    rw [readTemplate, byteAt?_ascii h (by decide)]
    rfl
  | @self c cs hstop hback _ ih =>
    obtain ⟨hnext, hcontains⟩ := plain_of_contains hcontains
    -- A dollar sign at the end is followed by the closing backtick.
    have hdollar : c = '$' → (cs ++ '\x60' :: rest).head? ≠ some '\x7b' := by
      rintro rfl
      rcases hnext with hnext | ⟨-, hhead⟩
      · cases hnext
      · cases cs with
        | nil => simp
        | cons d ds => simpa using hhead
    rw [readTemplate_self h (by simpa using hstop) hback hdollar]
    exact ih hcontains (passed_advance_append h)
  | pair _ ih =>
    obtain ⟨-, hcontains⟩ := plain_of_contains hcontains
    obtain ⟨-, hcontains⟩ := plain_of_contains hcontains
    rw [readTemplate_pair h]
    exact ih hcontains (passed_advance_append (passed_advance_append h))

end

end Source

/-! ### Tokens -/

section

variable {source cs text token : List Char} {place : Nat}

/-- A token stands between two equal marks and is read from behind the first one to the last. -/
theorem Token.exists_marks (h : Token token text) :
    ∃ mark content, token = mark :: (content ++ [mark]) ∧ mark.toNat < 0x80 ∧
      ∀ {source : Source} (start : Nat) {here : Cursor} {rest : List Char},
        here.passed ++ (content ++ mark :: rest) = source →
          source.readMarked mark start here.offset =
            pure ⟨[], (here.after content).offset + 1⟩ := by
  cases h with
  | @string quote content _ hquote hdenotes =>
    have hmark : (quote == '\x60') = false := by rcases hquote with rfl | rfl <;> rfl
    have hascii : quote.toNat < 0x80 := by rcases hquote with rfl | rfl <;> decide
    refine ⟨quote, content, rfl, hascii, fun start _ _ hpassed => ?_⟩
    simp only [Source.readMarked, hmark,
      Source.readString_of_shielded hquote (hdenotes.shielded_string hquote) hpassed]
    rfl
  | @template content _ hcontains hdenotes =>
    refine ⟨'\x60', content, rfl, by decide, fun start _ _ hpassed => ?_⟩
    exact Source.readTemplate_of_shielded hdenotes.shielded_template hcontains hpassed

/-- A token is read from its first byte to its last one. -/
theorem Token.readToken_eq (h : Token token text) (hat : HasAt source place token) :
    Source.readToken source place = pure ⟨[], place + byteLength token⟩ := by
  obtain ⟨mark, content, rfl, hascii, hread⟩ := h.exists_marks
  obtain ⟨before, after, rfl, rfl⟩ := hat
  have hpassed : (Cursor.start.after before).passed ++ mark :: (content ++ mark :: after) =
      before ++ (mark :: (content ++ [mark])) ++ after := by simp
  have hmark := Source.byteAt?_ascii hpassed hascii
  have hinside := hread (byteLength before) (Source.passed_advance_append hpassed)
  rw [Cursor.offset_after, Source.offset_advance_ascii _ hascii] at hinside
  rw [Cursor.offset_after_start] at hmark hinside
  have hstop : byteLength before + 1 + byteLength content + 1 =
      byteLength before + byteLength (mark :: (content ++ [mark])) := by
    simp [Text.utf8Size_of_toNat_lt hascii]
    omega
  simp only [Source.readToken, Source.byteAt, hmark, pure_bind, hinside, hstop]

/-- The code in the braces of an attribute is one token between blanks: it stands for `text` and for
nothing else, and the reader that begins at its first byte ends after its last one. -/
def OneToken (source : List Char) (a : Attribute) (cs text : List Char) : Prop :=
  ∃ start lead trail, HasAt source start ('\x7b' :: (cs ++ ['\x7d'])) ∧
    start + byteLength cs + 2 = a.stop ∧ cs = lead ++ (Text.trimmed cs ++ trail) ∧
    (∀ c ∈ lead ++ trail, Text.isBlank c = true) ∧
    (∀ text', Token (Text.trimmed cs) text' ↔ text' = text) ∧
    Source.readToken source (start + 1 + byteLength lead) =
      pure ⟨[], start + 1 + byteLength lead + byteLength (Text.trimmed cs)⟩

/-- A braced value that stands for a text is one token. -/
theorem exists_oneToken {es : List Element} {e : Element} {a : Attribute}
    (h : scan source = .ok es) (he : e ∈ Element.walkAll es) (ha : a ∈ e.attributes)
    (hvalue : a.value = some (.braced cs)) (htext : loneText? cs = some text) :
    OneToken source a cs text := by
  obtain ⟨start, hat, hstop⟩ := braced_of_scan h he ha hvalue
  obtain ⟨front, back, hattributes⟩ := List.append_of_mem ha
  obtain ⟨inside, tag, outer, -, -, -, hread, -⟩ :=
    (headed_of_scan h e he).attributeRead front a back hattributes
  rw [hvalue] at hread
  -- The value was read from its opening brace on, so its text is a token of that script.
  have htoken := hread.token htext
  obtain ⟨lead, trail, heq, hlead, htrail⟩ := Text.exists_eq_append_trimmed cs
  have hplace : HasAt source (start + 1 + byteLength lead) (Text.trimmed cs) := by
    rw [heq] at hat
    have hinner : HasAt source start
        (('\x7b' :: lead) ++ (Text.trimmed cs ++ (trail ++ ['\x7d']))) := by
      simpa using hat
    have hsize : byteLength ('\x7b' :: lead) = 1 + byteLength lead := rfl
    rw [Nat.add_assoc, ← hsize]
    exact hinner.right.left
  refine ⟨start, lead, trail, hat, hstop, heq, List.forall_mem_append.2 ⟨hlead, htrail⟩,
    fun text' => ⟨fun htoken' => htoken'.unique htoken, ?_⟩, htoken.readToken_eq hplace⟩
  rintro rfl
  exact htoken

end

end Mockup.Jsx
