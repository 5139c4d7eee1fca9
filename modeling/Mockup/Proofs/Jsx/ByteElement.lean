import Mockup.Proofs.Jsx.ByteParts

/-!
# Elements byte by byte

The byte reader of an element, its opening tag, its attributes and its content, each beside the
reading character by character. `AllEnd source n` says that all readings with less than `n`
characters left end. Each of them is shown to end on `rest` from `AllEnd source rest.length`, since
what it calls has less left.

## Main results

* `ends_readValue`, `ends_readAttribute`: attributes.
* `ends_readTag`, `ends_readContent`, `ends_readElement`: elements.
-/

namespace Mockup.Jsx.Source

open Text (IsBoundary byteLength)

/-! ### What a reading leads to -/

/-- After a script in braces what stands around it goes on after the closing brace. -/
def BracesDone (source : List Char) (limit : Nat) (outer : List Context)
    (inner : Piece (List Element)) : Prop :=
  ∃ here rest, inner.stop = here.offset + 1 ∧ here.passed ++ '\x7d' :: rest = source ∧
    rest.length < limit ∧ ∀ t, leaveBraces here { found := inner.value } outer = .ok t →
      Reaches source (here.advance '\x7d') t rest

/-- After a script that is not in braces the whole text is read. -/
def ScriptDone (source : List Char) (limit : Nat) (inBraces : Bool) (outer : List Context)
    (inner : Piece (List Element)) : Prop :=
  if inBraces then BracesDone source limit outer inner else scan source = .ok inner.value

/-- After a template the script around it goes on. -/
def TemplateDone (source : List Char) (limit : Nat) (s : Script) (outer : List Context)
    (inner : Piece (List Element)) : Prop :=
  ResumesAt source limit ⟨.script (s.afterValue inner.value) .between, outer⟩ inner.stop

/-- After an attribute the opening tag goes on. -/
def AttributeDone (source : List Char) (limit : Nat) (outer : List Context)
    (next : Piece OpenTag) : Prop :=
  ResumesAt source limit ⟨.tag next.value .between, outer⟩ next.stop

/-- After an element what stands around it goes on. -/
def ElementDone (source : List Char) (limit : Nat) (outer : List Context)
    (inner : Piece Element) : Prop :=
  ∀ t, leave [inner.value] outer = .ok t → ResumesAt source limit t inner.stop

/-- After the content of an element the element is done. -/
def ContentDone (source : List Char) (limit openEnd : Nat) (outer : List Context)
    (inner : Piece OpenElement) : Prop :=
  ElementDone source limit outer ⟨inner.value.tag.element openEnd inner.stop false, inner.stop⟩

/-- After an opening tag the content of the element follows, or the element is done. -/
def TagDone (source : List Char) (limit : Nat) (outer : List Context)
    (opening : Piece (OpenTag × Bool)) : Prop :=
  if opening.value.2 then
    ElementDone source limit outer
      ⟨opening.value.1.element opening.stop opening.stop true, opening.stop⟩
  else
    ResumesAt source limit ⟨.content ⟨opening.value.1, opening.stop⟩ .between, outer⟩ opening.stop

section

variable {source : List Char} {limit limit' openEnd : Nat} {outer : List Context}

theorem ScriptDone.mono {inBraces : Bool} {inner : Piece (List Element)}
    (h : ScriptDone source limit inBraces outer inner) (hle : limit ≤ limit') :
    ScriptDone source limit' inBraces outer inner := by
  cases inBraces with
  | false => exact h
  | true =>
    obtain ⟨there, rest, hstop, hthere, hlt, hreaches⟩ := h
    exact ⟨there, rest, hstop, hthere, Nat.lt_of_lt_of_le hlt hle, hreaches⟩

theorem ElementDone.mono {inner : Piece Element} (h : ElementDone source limit outer inner)
    (hle : limit ≤ limit') : ElementDone source limit' outer inner :=
  fun t ht => (h t ht).mono hle

theorem TagDone.mono {opening : Piece (OpenTag × Bool)} (h : TagDone source limit outer opening)
    (hle : limit ≤ limit') : TagDone source limit' outer opening := by
  unfold TagDone at h ⊢
  split
  · next hself =>
    rw [if_pos hself] at h
    exact ElementDone.mono h hle
  · next hself =>
    rw [if_neg hself] at h
    exact h.mono hle

/-- Where the outer situation does not depend on the place of the brace, it goes on after it. -/
theorem BracesDone.resumesAt {inner : Piece (List Element)} {t : Situation}
    (h : BracesDone source limit outer inner)
    (hleave : ∀ there, leaveBraces there { found := inner.value } outer = .ok t) :
    ResumesAt source limit t inner.stop := by
  obtain ⟨there, rest, hstop, -, hlt, hreaches⟩ := h
  exact ⟨_, rest, hstop.symm, hlt, hreaches t (hleave there)⟩

end

/-- All readings with less than `n` characters left end. -/
structure AllEnd (source : List Char) (n : Nat) : Prop where
  /-- A script, which is in braces exactly if something is around it. -/
  script : ∀ {here rest s outer inBraces}, rest.length < n → outer.isEmpty = !inBraces →
    Reaches source here ⟨.script s .between, outer⟩ rest →
    Ends source (readScript source inBraces here.offset s)
      (ScriptDone source rest.length inBraces outer)
  /-- A template. After a backslash the place is one byte ahead. -/
  template : ∀ (escaped : Bool) {here rest start found s outer}, rest.length < n →
    IsBoundary source start →
    Reaches source here
      ⟨.template ⟨start, found⟩ (bif escaped then .escaped else .between), .script s :: outer⟩
      rest →
    Ends source (readTemplate source start (here.offset + escaped.toNat) found)
      (TemplateDone source rest.length s outer)
  /-- An element after its first bracket. -/
  element : ∀ {here rest start outer}, rest.length < n → here.offset = start + 1 →
    Reaches source here ⟨.tag { start } .name, outer⟩ rest →
    Ends source (readElement source start) (ElementDone source rest.length outer)
  /-- An opening tag after its name. -/
  tag : ∀ {here rest t outer}, rest.length < n →
    Reaches source here ⟨.tag t .between, outer⟩ rest →
    Ends source (readTag source t here.offset) (TagDone source rest.length outer)
  /-- A content. -/
  content : ∀ {here rest e outer}, rest.length < n →
    Reaches source here ⟨.content e .between, outer⟩ rest →
    Ends source (readContent source e here.offset) (ContentDone source rest.length e.openEnd outer)

section

variable {source rest : List Char} {here : Cursor} {outer : List Context} {c d : Char}
  {n place : Nat} {t : OpenTag} {e : OpenElement}

namespace AllEnd

theorem mono {m : Nat} (all : AllEnd source n) (h : m ≤ n) : AllEnd source m where
  script hlt := all.script (Nat.lt_of_lt_of_le hlt h)
  template escaped _ _ _ _ _ _ hlt := all.template escaped (Nat.lt_of_lt_of_le hlt h)
  element hlt := all.element (Nat.lt_of_lt_of_le hlt h)
  tag hlt := all.tag (Nat.lt_of_lt_of_le hlt h)
  content hlt := all.content (Nat.lt_of_lt_of_le hlt h)

/-- A script in braces is read from the brace that opens it on. -/
theorem braces {s : Situation} (all : AllEnd source n) (hn : rest.length < n) (hne : outer ≠ [])
    (h : Reaches source here s ('\x7b' :: rest)) (hread : s.read here '\x7b' = enterBraces outer) :
    Ends source (readScript source true (here.offset + 1) {})
      (BracesDone source rest.length outer) := by
  have hbraces : outer.isEmpty = !true := by simpa using hne
  exact all.script hn hbraces (h.step hread)

/-- An opening tag goes on after a part of it. -/
theorem tag_of_resumesAt (all : AllEnd source n)
    (h : ResumesAt source n ⟨.tag t .between, outer⟩ place) :
    Ends source (readTag source t place) (TagDone source n outer) := by
  obtain ⟨there, rest, rfl, hlt, hreaches⟩ := h
  exact (all.tag hlt hreaches).mono fun _ hr => hr.mono (Nat.le_of_lt hlt)

/-- A content goes on after a part of it. -/
theorem content_of_resumesAt (all : AllEnd source n)
    (h : ResumesAt source n ⟨.content e .between, outer⟩ place) :
    Ends source (readContent source e place) (ContentDone source n e.openEnd outer) := by
  obtain ⟨there, rest, rfl, hlt, hreaches⟩ := h
  exact (all.content hlt hreaches).mono fun _ hr => ElementDone.mono hr (Nat.le_of_lt hlt)

end AllEnd

/-! ### Looking ahead -/

/-- Looking ahead by one byte, behind a character of ASCII, is looking at the next character. -/
theorem peek_beq (h : here.passed ++ c :: rest = source) (hc : c.toNat < 0x80)
    (hd : d.toNat < 0x80) :
    (byteAt? source (here.offset + 1) == some d) = (rest.head? == some d) := by
  rw [← offset_advance_ascii here hc]
  exact byteAt?_beq (passed_advance_append h) hd

theorem opensAt_eq (h : here.passed ++ c :: rest = source) (hc : c.toNat < 0x80) :
    opensAt source here.offset = rest.head?.any opensElement := by
  rw [opensAt, ← offset_advance_ascii here hc]
  exact any_byteAt? (passed_advance_append h) fun _ => opensElement_high

/-- The text after skipped characters begins with none of them. -/
theorem not_of_head?_dropWhile {p : Char → Bool} {cs : List Char} (c : Char)
    (h : (cs.dropWhile p).head? = some c) : p c = false := by
  simpa [h] using List.head?_dropWhile_not p cs

/-- Skipping a first character leaves less. -/
theorem length_dropWhile_lt {p : Char → Bool} {cs : List Char} (h : cs.head?.any p = true) :
    (cs.dropWhile p).length < cs.length := by
  cases cs with
  | nil => simp at h
  | cons c cs =>
    rw [List.dropWhile_cons_of_pos (by simpa using h)]
    exact Nat.lt_succ_of_le (List.dropWhile_sublist p).length_le

/-! ### Attributes -/

/-- The value of an attribute is read from its first character on. -/
theorem ends_readValue {a : OpenAttribute} (all : AllEnd source rest.length)
    (hhead : ∀ c, rest.head? = some c → Text.isAsciiBlank c = false)
    (h : Reaches source here ⟨.tag t (.equals a), outer⟩ rest) :
    Ends source (readValue source t a here.offset) (AttributeDone source rest.length outer) := by
  have hpassed := h.passed_append
  cases rest with
  | nil =>
    rw [readValue, byteAt?_nil hpassed]
    exact .error h.scan_eq_finish h.isBoundary
  | cons c rest =>
    obtain ⟨b, hb, hshows⟩ := exists_shows hpassed
    have hblank := hhead c rfl
    rw [readValue, hb]
    simp only [hshows.beq_eq (show '"'.toNat < 0x80 by decide),
      hshows.beq_eq (show '\''.toNat < 0x80 by decide),
      hshows.beq_eq (show '\x7b'.toNat < 0x80 by decide)]
    by_cases hquote : (c == '"' || c == '\'') = true
    · have hc : c.toNat < 0x80 := by
        rcases (by simpa using hquote : c = '"' ∨ c = '\'') with rfl | rfl <;> decide
      obtain rfl := (hshows.eq_iff hc).2 rfl
      have hread : Situation.read ⟨.tag t (.equals a), outer⟩ here b =
          t.goOn (.quoted a b here.offset) outer := by
        simp only [Situation.read, OpenTag.read, hblank, hquote, Bool.false_eq_true, if_false,
          if_true]
      rw [if_pos hquote]
      refine (ends_readQuoted hc h.isBoundary (offset_advance_ascii here hc) (h.step hread)).bind ?_
      exact fun value hvalue => .value (hvalue.mono (Nat.le_succ _))
    rw [if_neg hquote]
    by_cases hbrace : c = '\x7b'
    · subst hbrace
      refine (all.braces (Nat.lt_succ_self _) (by simp) h rfl).bind fun inner hinner => ?_
      obtain ⟨there, after, hstop, hthere, hlt, hreaches⟩ := hinner
      -- Both parts of the text that are taken end beside the closing brace.
      have hopen := passed_advance_append hpassed
      have hclose := passed_advance_append hthere
      have hvalue : slice source (here.offset + 1) there.offset =
          pure (there.since (here.offset + 1)) :=
        slice_since hthere (isBoundary_offset hopen) (offset_le_offset hopen hthere hlt)
      have hwhole : slice source here.offset (there.offset + 1) =
          pure ((there.advance '\x7d').since here.offset) :=
        slice_since hclose h.isBoundary (offset_le_offset hpassed hclose (by simp; omega))
      rw [hstop, Nat.add_sub_cancel, hvalue, hwhole]
      simp only [pure_bind, loneText_eq]
      exact .value ⟨_, after, rfl, Nat.lt_succ_of_lt hlt, hreaches _ rfl⟩
    · have hread : Situation.read ⟨.tag t (.equals a), outer⟩ here c =
          failAt here.offset (.oddValue a.name) := by
        simp [Situation.read, OpenTag.read, hblank, hquote, hbrace]
      rw [if_neg (by simpa using hbrace)]
      exact .error (h.scan_eq_error hread) h.isBoundary

/-- Blanks between two parts of a tag that were passed may be left to be passed later. -/
theorem Reaches.before_blanks
    (h : Reaches source (here.after (rest.takeWhile Text.isAsciiBlank))
      ⟨.tag t .between, outer⟩ (rest.dropWhile Text.isAsciiBlank)) :
    Reaches source here ⟨.tag t .between, outer⟩ rest := by
  have hblanks : Situation.Reads ⟨.tag t .between, outer⟩ here
      (rest.takeWhile Text.isAsciiBlank) ⟨.tag t .between, outer⟩ := by
    refine .repeated fun c hc there => ?_
    have hblank := List.all_eq_true.1 List.all_takeWhile c hc
    simp [Situation.read, OpenTag.read, OpenTag.readBetween, OpenTag.goOn, hblank]
  simpa using h.of_reads hblanks

/-- An attribute goes on after its name. -/
theorem ends_afterName {a : OpenAttribute} (all : AllEnd source rest.length)
    (h : Reaches source here ⟨.tag t (.gap a here.offset), outer⟩ rest) :
    Ends source (readAfterName source t a here.offset)
      (AttributeDone source (rest.length + 1) outer) := by
  have hgap := h.skip (p := Text.isAsciiBlank) fun c hc there => by
    simp [Situation.read, OpenTag.read, OpenTag.readGap, OpenTag.goOn, hc]
  have hhead : ∀ c, (rest.dropWhile Text.isAsciiBlank).head? = some c →
      Text.isAsciiBlank c = false := not_of_head?_dropWhile
  rw [readAfterName]
  simp only [skipWhile_eq h.passed_append (.of_high fun _ => isAsciiBlank_high), bne,
    byteAt?_beq hgap.passed_append (show '='.toNat < 0x80 by decide)]
  cases hequals : ((rest.dropWhile Text.isAsciiBlank).head? == some '=') with
  | false =>
    -- There is no value, and the blanks are read again between two attributes.
    have hbetween := hgap.replace (t := ⟨.tag (t.addAttribute a here.offset none) .between, outer⟩)
      (fun c cs hc => by
        have hblank := hhead c (by rw [hc]; rfl)
        have hne : ¬c = '=' := by simpa [hc] using hequals
        simp [Situation.read, OpenTag.read, OpenTag.readGap, hblank, hne])
      fun _ => rfl
    exact .value ⟨here, rest, rfl, Nat.lt_succ_self _, hbetween.before_blanks⟩
  | true =>
    obtain ⟨cs, hcs⟩ : ∃ cs, rest.dropWhile Text.isAsciiBlank = '=' :: cs :=
      List.head?_eq_some_iff.1 (beq_iff_eq.1 hequals)
    have hlen := (List.dropWhile_sublist Text.isAsciiBlank (l := rest)).length_le
    have hlen' := (List.dropWhile_sublist Text.isAsciiBlank (l := cs)).length_le
    rw [hcs] at hgap hlen
    rw [List.length_cons] at hlen
    have hvalue := hgap.step (t := ⟨.tag t (.equals a), outer⟩) rfl
    have hskip := hvalue.skip (p := Text.isAsciiBlank) fun c hc there => by
      simp [Situation.read, OpenTag.read, OpenTag.goOn, hc]
    rw [← offset_advance_ascii _ (show '='.toNat < 0x80 by decide)]
    simp only [skipWhile_eq hvalue.passed_append (.of_high fun _ => isAsciiBlank_high)]
    refine (ends_readValue (all.mono (by omega)) not_of_head?_dropWhile hskip).mono fun _ hr => ?_
    exact ResumesAt.mono hr (by omega)

/-- After the name of an attribute blanks may follow. -/
theorem Reaches.after_attribute {start : Nat}
    (h : Reaches source here ⟨.tag t (.attribute start), outer⟩ rest)
    (hhead : ∀ c, rest.head? = some c → isAttributeChar c = false) :
    Reaches source here
      ⟨.tag t (.gap ⟨String.ofList (here.since start), start⟩ here.offset), outer⟩ rest := by
  refine h.replace (fun c cs hc => ?_) fun _ => rfl
  simp [Situation.read, OpenTag.read, hhead c (by rw [hc]; rfl)]

/-- An attribute is read from the first character of its name on. -/
theorem ends_readAttribute (all : AllEnd source rest.length)
    (hhead : rest.head?.any isAttributeChar = true)
    (h : Reaches source here ⟨.tag t (.attribute here.offset), outer⟩ rest) :
    Ends source (readAttribute source t here.offset) (AttributeDone source rest.length outer) := by
  have hname := h.skip (p := isAttributeChar) fun c hc there => by
    simp [Situation.read, OpenTag.read, OpenTag.goOn, hc]
  have hshort := length_dropWhile_lt hhead
  rw [readAttribute, skipWhile_eq h.passed_append (.of_high fun _ => isAttributeChar_high),
    slice_since hname.passed_append h.isBoundary (by simp), pure_bind]
  have hgap := hname.after_attribute not_of_head?_dropWhile
  exact (ends_afterName (all.mono (Nat.le_of_lt hshort)) hgap).mono fun _ hr => hr.mono hshort

/-! ### Opening tags -/

/-- A slash in a tag is followed by the end of the element, or stands where it must not. -/
theorem slash_cases (h : Reaches source here ⟨.tag t .between, outer⟩ ('/' :: rest)) :
    ((rest.head? == some '>') = true ∧
      ElementDone source rest.length outer
        ⟨t.element (here.offset + 2) (here.offset + 2) true, here.offset + 2⟩) ∨
    ((rest.head? == some '>') = false ∧ scan source = failAt here.offset .strayCharacter) := by
  have hslash := h.step (t := ⟨.tag t (.slash here.offset), outer⟩) rfl
  cases rest with
  | nil => exact .inr ⟨rfl, hslash.scan_eq_finish⟩
  | cons d rest =>
    by_cases hd : d = '>'
    · subst hd
      exact .inl ⟨rfl, fun u hu => ⟨_, rest, rfl, Nat.lt_succ_self _, hslash.step hu⟩⟩
    · refine .inr ⟨by simpa using hd, hslash.scan_eq_error ?_⟩
      simp [Situation.read, OpenTag.read, hd, failAt]

/-- An opening tag is read to its end. -/
theorem ends_readTag (all : AllEnd source rest.length)
    (h : Reaches source here ⟨.tag t .between, outer⟩ rest) :
    Ends source (readTag source t here.offset) (TagDone source rest.length outer) := by
  have hskip := h.skip (p := Text.isAsciiBlank) fun c hc there => by
    simp [Situation.read, OpenTag.read, OpenTag.readBetween, OpenTag.goOn, hc]
  have hhead : ∀ c, (rest.dropWhile Text.isAsciiBlank).head? = some c →
      Text.isAsciiBlank c = false := not_of_head?_dropWhile
  have hlen := (List.dropWhile_sublist Text.isAsciiBlank (l := rest)).length_le
  rw [readTag]
  simp only [skipWhile_eq h.passed_append (.of_high fun _ => isAsciiBlank_high)]
  generalize here.after (rest.takeWhile Text.isAsciiBlank) = there at hskip ⊢
  generalize rest.dropWhile Text.isAsciiBlank = left at hskip hhead hlen
  have hpassed := hskip.passed_append
  cases left with
  | nil =>
    rw [byteAt?_nil hpassed]
    exact .error hskip.scan_eq_finish hskip.isBoundary
  | cons c left =>
    obtain ⟨b, hb, hshows⟩ := exists_shows hpassed
    have hblank := hhead c rfl
    simp only [hb, hshows.beq_eq (show '/'.toNat < 0x80 by decide),
      hshows.beq_eq (show '>'.toNat < 0x80 by decide),
      hshows.beq_eq (show '\x7b'.toNat < 0x80 by decide),
      hshows.apply_eq (.of_high fun _ => isAttributeChar_high)]
    by_cases hslash : c = '/'
    · subst hslash
      rw [peek_beq hpassed (by decide) (by decide)]
      obtain ⟨hpeek, hdone⟩ | ⟨hpeek, hscan⟩ := slash_cases hskip
      · rw [hpeek]
        exact .value (ElementDone.mono hdone (Nat.le_of_lt hlen))
      · rw [hpeek]
        exact .error hscan hskip.isBoundary
    by_cases hend : c = '>'
    · subst hend
      exact .value ⟨_, left, rfl, hlen, hskip.step rfl⟩
    by_cases hbrace : c = '\x7b'
    · subst hbrace
      refine (all.braces hlen (by simp) hskip rfl).bind fun inner hinner => ?_
      have hnext := hinner.resumesAt (t := ⟨.tag (t.add inner.value) .between, outer⟩) fun _ => rfl
      exact all.tag_of_resumesAt (hnext.mono (Nat.le_of_lt hlen))
    simp only [beq_false_of_ne hslash, beq_false_of_ne hend, beq_false_of_ne hbrace,
      Bool.false_and, Bool.false_eq_true, if_false]
    cases hattribute : isAttributeChar c with
    | true =>
      -- The first character may be counted as one after the start of the name.
      have hname := hskip.replace (t := ⟨.tag t (.attribute there.offset), outer⟩)
        (fun d ds hd => by
          cases hd
          simp [Situation.read, OpenTag.read, OpenTag.readBetween, hblank, hslash, hend, hbrace,
            hattribute])
        (by simp)
      refine (ends_readAttribute (all.mono hlen) hattribute hname).bind fun next hnext => ?_
      exact all.tag_of_resumesAt (ResumesAt.mono hnext hlen)
    | false =>
      refine .error (hskip.scan_eq_error ?_) hskip.isBoundary
      simp [Situation.read, OpenTag.read, OpenTag.readBetween, hblank, hslash, hend, hbrace,
        hattribute, failAt]

/-! ### Elements -/

/-- After its name an opening tag goes on. -/
theorem Reaches.after_name {start : Nat}
    (h : Reaches source here ⟨.tag { start } .name, outer⟩ rest)
    (hhead : ∀ c, rest.head? = some c → isTagChar c = false) :
    Reaches source here
      ⟨.tag { start, name := String.ofList (here.since (start + 1)), nameEnd := here.offset }
        .between, outer⟩ rest := by
  refine h.replace (fun c cs hc => ?_) fun _ => rfl
  simp [Situation.read, OpenTag.read, hhead c (by rw [hc]; rfl)]

/-- An element is read from the first character after its bracket on. -/
theorem ends_readElement {start : Nat} (all : AllEnd source rest.length)
    (hplace : here.offset = start + 1)
    (h : Reaches source here ⟨.tag { start } .name, outer⟩ rest) :
    Ends source (readElement source start) (ElementDone source rest.length outer) := by
  have hskip := h.skip (p := isTagChar) fun c hc there => by
    simp [Situation.read, OpenTag.read, OpenTag.goOn, hc]
  have hlen := (List.dropWhile_sublist isTagChar (l := rest)).length_le
  have hslice := slice_since hskip.passed_append h.isBoundary (by simp)
  rw [hplace] at hslice
  have hnameEnd := skipWhile_eq h.passed_append (.of_high fun _ => isTagChar_high)
  rw [hplace] at hnameEnd
  rw [readElement]
  simp only [hnameEnd, hslice, pure_bind]
  have hname := hskip.after_name not_of_head?_dropWhile
  refine (ends_readTag (all.mono hlen) hname).bind fun opening hopening => ?_
  unfold TagDone at hopening
  -- An element that closes itself ends here; the content of any other one is read to its closing
  -- tag.
  split
  · next hself =>
    rw [if_pos hself] at hopening
    exact .value (ElementDone.mono hopening hlen)
  · next hself =>
    rw [if_neg hself] at hopening
    obtain ⟨there, left, hstop, hlt, hreaches⟩ := hopening
    rw [← hstop] at hreaches ⊢
    refine (all.content (Nat.lt_of_lt_of_le hlt hlen) hreaches).bind fun inner hinner => .value ?_
    exact ElementDone.mono hinner (by omega)

/-! ### Contents -/

theorem readContent_high {b : Char} (hb : byteAt? source place = some b) (hle : 0x80 ≤ b.toNat) :
    readContent source e place = readContent source e (place + 1) := by
  rw [readContent, hb]
  simp [ne_of_high hle]

/-- An angle bracket in a content begins the closing tag or an element, or is text. -/
theorem ends_contentAngle (all : AllEnd source (rest.length + 1))
    (h : Reaches source here ⟨.content e .between, outer⟩ ('<' :: rest)) :
    Ends source (readContent source e here.offset)
      (ContentDone source (rest.length + 1) e.openEnd outer) := by
  have hpassed := h.passed_append
  have hascii : '<'.toNat < 0x80 := by decide
  have hadvance := offset_advance_ascii here hascii
  have hnext := h.step (t := ⟨.content e (.angle here.offset), outer⟩) rfl
  rw [readContent, byteAt?_ascii hpassed hascii]
  simp only [peek_beq hpassed hascii (show '/'.toNat < 0x80 by decide), opensAt_eq hpassed hascii,
    beq_self_eq_true, Bool.true_and]
  cases hclosing : (rest.head? == some '/') with
  | true =>
    obtain ⟨rest, rfl⟩ := List.head?_eq_some_iff.1 (beq_iff_eq.1 hclosing)
    refine (ends_readClosingTag h).bind fun closing hread => ?_
    split
    · next hname =>
      rw [if_pos hname] at hread
      exact .value fun t ht => (hread t ht).mono (by simp; omega)
    · next hname =>
      rw [if_neg hname] at hread
      exact .error hread h.isBoundary
  | false =>
  -- What begins neither an element nor a closing tag is text, and the reader goes on behind it.
  have hslash : ∀ d ds, rest = d :: ds → ¬d = '/' := by
    rintro d ds rfl
    simpa using hclosing
  cases hopens : rest.head?.any opensElement with
  | true =>
    have hname := hnext.replace (t := ⟨.tag { start := here.offset } .name, .content e :: outer⟩)
      (fun d ds hd => by
        have hopen : opensElement d = true := by simpa [hd] using hopens
        simp [Situation.read, OpenElement.read, hslash d ds hd, hopen])
      (fun hnil => by simp [hnil] at hopens)
    refine (all.element (Nat.lt_succ_self _) hadvance hname).bind fun inner hinner => ?_
    exact all.content_of_resumesAt ((hinner _ rfl).mono (Nat.le_succ _))
  | false =>
    have hbetween := hnext.replace (t := ⟨.content e .between, outer⟩)
      (fun d ds hd => by
        have hopen : opensElement d = false := by simpa [hd] using hopens
        simp [Situation.read, OpenElement.read, hslash d ds hd, hopen])
      fun _ => rfl
    exact all.content_of_resumesAt ⟨_, rest, hadvance, Nat.lt_succ_self _, hbetween⟩

/-- A content is read to the end of the closing tag. -/
theorem ends_readContent (all : AllEnd source rest.length)
    (h : Reaches source here ⟨.content e .between, outer⟩ rest) :
    Ends source (readContent source e here.offset)
      (ContentDone source rest.length e.openEnd outer) := by
  have hpassed := h.passed_append
  cases rest with
  | nil =>
    rw [readContent, byteAt?_nil hpassed]
    exact .error h.scan_eq_finish h.isBoundary
  | cons c rest =>
    by_cases hangle : c = '<'
    · subst hangle
      exact ends_contentAngle all h
    by_cases hbrace : c = '\x7b'
    · subst hbrace
      rw [readContent, byteAt?_ascii hpassed (by decide)]
      refine (all.braces (Nat.lt_succ_self _) (by simp) h rfl).bind fun inner hinner => ?_
      have hnext := hinner.resumesAt (t := ⟨.content (e.add inner.value) .between, outer⟩)
        fun _ => rfl
      exact all.content_of_resumesAt (hnext.mono (Nat.le_succ _))
    -- All other characters are text, whether they are one byte or more.
    have hread : Situation.read ⟨.content e .between, outer⟩ here c = e.goOn .between outer := by
      simp [Situation.read, OpenElement.read, OpenElement.readBetween, hangle, hbrace]
    have htext : readContent source e here.offset =
        readContent source e (here.advance c).offset := by
      rcases Nat.lt_or_ge c.toNat 0x80 with hc | hc
      · rw [readContent, byteAt?_ascii hpassed hc, offset_advance_ascii here hc]
        simp [hangle, hbrace]
      · exact after_inside hpassed hc (fun _ _ => readContent_high) (Nat.zero_le _)
    rw [htext]
    exact all.content_of_resumesAt ⟨_, rest, rfl, Nat.lt_succ_self _, h.step hread⟩

end

end Mockup.Jsx.Source
