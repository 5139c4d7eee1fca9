import Mockup.Proofs.Jsx.Run

/-!
# What a character does

`Move here c s s'` lists what reading the character `c` at `here` can do to a situation `s`. The
lexical detail of scripts and templates is left out: it matters only that what was found stays and
where an angle bracket stands. Every invariant of a scan is proved by cases on a move.

## Main results

* `Move.of_read`: a character that is read makes a move.
-/

namespace Mockup.Jsx

variable {here : Cursor} {c : Char} {outer : List Context}

/-! ### Opening tags -/

/-- What a character does to an opening tag between two parts. -/
inductive OpenTag.Next (t : OpenTag) (outer : List Context) (here : Cursor) (c : Char) :
    Situation → Prop
  | blank (hc : Text.isAsciiBlank c) : Next t outer here c ⟨.tag t .between, outer⟩
  | slash (hc : c = '/') : Next t outer here c ⟨.tag t (.slash here.offset), outer⟩
  | close (hc : c = '>') : Next t outer here c ⟨.content ⟨t, here.offset + 1⟩ .between, outer⟩
  | braces (hc : c = '\x7b') : Next t outer here c ⟨.script {} .between, .tag t none :: outer⟩
  | attribute (hc : isAttributeChar c) :
    Next t outer here c ⟨.tag t (.attribute here.offset), outer⟩

theorem OpenTag.next_of_readBetween {t : OpenTag} {s : Situation}
    (h : t.readBetween outer here c = .ok s) : t.Next outer here c s := by
  unfold OpenTag.readBetween OpenTag.goOn OpenElement.goOn enterBraces Script.goOn at h
  split at h
  · cases h; exact .blank ‹_›
  split at h
  · cases h; exact .slash (by simp_all)
  split at h
  · cases h; exact .close (by simp_all)
  split at h
  · cases h; exact .braces (by simp_all)
  split at h
  · cases h; exact .attribute ‹_›
  · simp at h

/-- What a character does after the name of an attribute. -/
inductive OpenTag.NextAfterName (t : OpenTag) (a : OpenAttribute) (stop : Nat)
    (outer : List Context) (here : Cursor) (c : Char) : Situation → Prop
  | blank (hc : Text.isAsciiBlank c) :
    NextAfterName t a stop outer here c ⟨.tag t (.gap a stop), outer⟩
  | equals (hc : c = '=') : NextAfterName t a stop outer here c ⟨.tag t (.equals a), outer⟩
  | commit {s : Situation} (hc : Text.isAsciiBlank c = false) (hne : c ≠ '=')
    (next : (t.addAttribute a stop none).Next outer here c s) :
    NextAfterName t a stop outer here c s

theorem OpenTag.nextAfterName_of_readGap {t : OpenTag} {a : OpenAttribute} {stop : Nat}
    {s : Situation} (h : t.readGap a stop outer here c = .ok s) :
    t.NextAfterName a stop outer here c s := by
  unfold OpenTag.readGap at h
  split at h
  · cases h; exact .blank ‹_›
  split at h
  · cases h; exact .equals (by simp_all)
  · exact .commit (by simp_all) (by simp_all) (next_of_readBetween h)

/-- The opening tag whose name ends at a place. -/
def OpenTag.named (t : OpenTag) (here : Cursor) : OpenTag :=
  { t with name := String.ofList (here.since (t.start + 1)), nameEnd := here.offset }

/-- What a character does in the name of an opening tag. -/
inductive OpenTag.NextInName (t : OpenTag) (outer : List Context) (here : Cursor) (c : Char) :
    Situation → Prop
  | more (hc : isTagChar c) : NextInName t outer here c ⟨.tag t .name, outer⟩
  | done {s : Situation} (hc : isTagChar c = false) (next : (t.named here).Next outer here c s) :
    NextInName t outer here c s

theorem OpenTag.nextInName_of_read {t : OpenTag} {s : Situation}
    (h : t.read outer here c .name = .ok s) : t.NextInName outer here c s := by
  simp only [OpenTag.read] at h
  split at h
  · cases h; exact .more ‹_›
  · exact .done (by simp_all) (next_of_readBetween h)

/-! ### Going out -/

/-- What leaving an element or a template does. -/
inductive Left (inner : List Element) : List Context → Situation → Prop
  | script (s : Script) (outer : List Context) :
    Left inner (.script s :: outer) ⟨.script (s.afterValue inner) .between, outer⟩
  | content (e : OpenElement) (outer : List Context) :
    Left inner (.content e :: outer) ⟨.content (e.add inner) .between, outer⟩
  | astray (outer : List Context) (hs : ∀ s rest, outer ≠ .script s :: rest)
    (hc : ∀ e rest, outer ≠ .content e :: rest) :
    Left inner outer ⟨.script (Script.afterValue {} inner) .between, outer⟩

theorem left_of_leave {inner : List Element} {s : Situation} (h : leave inner outer = .ok s) :
    Left inner outer s := by
  unfold leave at h
  split at h
  · cases h; exact .script ..
  · cases h; exact .content ..
  · cases h; exact .astray _ (by simp_all) (by simp_all)

/-- What leaving the braces of a script does. -/
inductive LeftBraces (here : Cursor) (s : Script) : List Context → Situation → Prop
  | template (t : Template) (outer : List Context) :
    LeftBraces here s (.template t :: outer)
      ⟨.template { t with found := t.found ++ s.found } .between, outer⟩
  | tag (t : OpenTag) (outer : List Context) :
    LeftBraces here s (.tag t none :: outer) ⟨.tag (t.add s.found) .between, outer⟩
  | value (t : OpenTag) (a : OpenAttribute) (start : Nat) (outer : List Context) :
    LeftBraces here s (.tag t (some (a, start)) :: outer)
      ⟨.tag ((t.add s.found).addAttribute a (here.offset + 1)
        (some (.braced (here.since (start + 1))))) .between, outer⟩
  | content (e : OpenElement) (outer : List Context) :
    LeftBraces here s (.content e :: outer) ⟨.content (e.add s.found) .between, outer⟩

theorem leftBraces_of_leaveBraces {s : Script} {s' : Situation}
    (h : leaveBraces here s outer = .ok s') : LeftBraces here s outer s' := by
  unfold leaveBraces at h
  split at h
  · cases h; exact .template ..
  · cases h; exact .tag ..
  · cases h; exact .value ..
  · cases h; exact .content ..
  · simp at h

/-! ### Moves -/

/-- What a character does to what is being read and to what waits for it. -/
inductive Move (here : Cursor) (c : Char) : Situation → Situation → Prop
  | script {s s' : Script} {part part' : Script.Part} {outer : List Context}
    (found : s'.found = s.found) (angle : ∀ o, part' = .angle o → c = '<' ∧ o = here.offset) :
    Move here c ⟨.script s part, outer⟩ ⟨.script s' part', outer⟩
  | enterTemplate {s s' : Script} {part : Script.Part} {outer : List Context}
    (found : s'.found = s.found) :
    Move here c ⟨.script s part, outer⟩
      ⟨.template ⟨here.offset, []⟩ .between, .script s' :: outer⟩
  | leaveBraces {s s' : Script} {part : Script.Part} {outer : List Context} {t : Situation}
    (hc : c = '\x7d') (found : s'.found = s.found) (left : LeftBraces here s' outer t) :
    Move here c ⟨.script s part, outer⟩ t
  | scriptElement {s : Script} {start : Nat} {outer : List Context} {t : Situation}
    (hc : opensElement c)
    (next : OpenTag.NextInName { start } (.script s :: outer) here c t) :
    Move here c ⟨.script s (.angle start), outer⟩ t
  | template {t : Template} {part part' : Template.Part} {outer : List Context} :
    Move here c ⟨.template t part, outer⟩ ⟨.template t part', outer⟩
  | enterSubstitution {t : Template} {part : Template.Part} {outer : List Context} :
    Move here c ⟨.template t part, outer⟩ ⟨.script {} .between, .template t :: outer⟩
  | leaveTemplate {t : Template} {part : Template.Part} {outer : List Context} {s : Situation}
    (left : Left t.found outer s) : Move here c ⟨.template t part, outer⟩ s
  | name {t : OpenTag} {outer : List Context} {s : Situation}
    (next : t.NextInName outer here c s) : Move here c ⟨.tag t .name, outer⟩ s
  | tag {t : OpenTag} {outer : List Context} {s : Situation}
    (next : t.Next outer here c s) : Move here c ⟨.tag t .between, outer⟩ s
  | selfClose {t : OpenTag} {start : Nat} {outer : List Context} {s : Situation} (hc : c = '>')
    (left : Left [t.element (here.offset + 1) (here.offset + 1) true] outer s) :
    Move here c ⟨.tag t (.slash start), outer⟩ s
  | attribute {t : OpenTag} {start : Nat} {outer : List Context} (hc : isAttributeChar c) :
    Move here c ⟨.tag t (.attribute start), outer⟩ ⟨.tag t (.attribute start), outer⟩
  | attributeName {t : OpenTag} {start : Nat} {outer : List Context} {s : Situation}
    (hc : isAttributeChar c = false)
    (next : t.NextAfterName ⟨String.ofList (here.since start), start⟩ here.offset outer here c s) :
    Move here c ⟨.tag t (.attribute start), outer⟩ s
  | gap {t : OpenTag} {a : OpenAttribute} {stop : Nat} {outer : List Context} {s : Situation}
    (next : t.NextAfterName a stop outer here c s) : Move here c ⟨.tag t (.gap a stop), outer⟩ s
  | equals {t : OpenTag} {a : OpenAttribute} {outer : List Context} (hc : Text.isAsciiBlank c) :
    Move here c ⟨.tag t (.equals a), outer⟩ ⟨.tag t (.equals a), outer⟩
  | quote {t : OpenTag} {a : OpenAttribute} {outer : List Context} (hc : c = '"' ∨ c = '\'') :
    Move here c ⟨.tag t (.equals a), outer⟩ ⟨.tag t (.quoted a c here.offset), outer⟩
  | enterValue {t : OpenTag} {a : OpenAttribute} {outer : List Context} (hc : c = '\x7b') :
    Move here c ⟨.tag t (.equals a), outer⟩
      ⟨.script {} .between, .tag t (some (a, here.offset)) :: outer⟩
  | quoted {t : OpenTag} {a : OpenAttribute} {quote : Char} {start : Nat} {outer : List Context} :
    Move here c ⟨.tag t (.quoted a quote start), outer⟩ ⟨.tag t (.quoted a quote start), outer⟩
  | unquote {t : OpenTag} {a : OpenAttribute} {start : Nat} {outer : List Context} :
    Move here c ⟨.tag t (.quoted a c start), outer⟩
      ⟨.tag (t.addAttribute a (here.offset + 1) (some (.quoted (here.since (start + 1))))) .between,
        outer⟩
  | content {e : OpenElement} {part part' : OpenElement.Part} {outer : List Context}
    (angle : ∀ o, part' = .angle o → c = '<' ∧ o = here.offset) :
    Move here c ⟨.content e part, outer⟩ ⟨.content e part', outer⟩
  | enterBraces {e : OpenElement} {part : OpenElement.Part} {outer : List Context} :
    Move here c ⟨.content e part, outer⟩ ⟨.script {} .between, .content e :: outer⟩
  | contentElement {e : OpenElement} {start : Nat} {outer : List Context} {t : Situation}
    (hc : opensElement c)
    (next : OpenTag.NextInName { start } (.content e :: outer) here c t) :
    Move here c ⟨.content e (.angle start), outer⟩ t
  | close {e : OpenElement} {start : Nat} {outer : List Context} {s : Situation} (hc : c = '>')
    (left : Left [e.tag.element e.openEnd (here.offset + 1) false] outer s) :
    Move here c ⟨.content e (.closing start), outer⟩ s

/-! ### Reading is moving -/

theorem Move.of_readTag {t : OpenTag} {part : OpenTag.Part} {s : Situation}
    (h : t.read outer here c part = .ok s) : Move here c ⟨.tag t part, outer⟩ s := by
  cases part with
  | name => exact .name (OpenTag.nextInName_of_read h)
  | between => exact .tag (OpenTag.next_of_readBetween h)
  -- Each question that the reader asks about the character picks one of the moves.
  | slash start =>
    simp only [OpenTag.read] at h
    split at h
    · exact .selfClose (by simp_all) (left_of_leave h)
    · simp at h
  | «attribute» start =>
    simp only [OpenTag.read] at h
    split at h
    · cases h; exact .attribute ‹_›
    · exact .attributeName (by simp_all) (OpenTag.nextAfterName_of_readGap h)
  | gap a stop => exact .gap (OpenTag.nextAfterName_of_readGap h)
  | equals a =>
    simp only [OpenTag.read, OpenTag.goOn] at h
    split at h
    · cases h; exact .equals ‹_›
    split at h
    · cases h; exact .quote (by simp_all)
    split at h
    · cases h; exact .enterValue (by simp_all)
    · simp at h
  | quoted a quote start =>
    simp only [OpenTag.read, OpenTag.goOn] at h
    split at h
    · next hq =>
      obtain rfl : c = quote := by simpa using hq
      cases h; exact .unquote
    · cases h; exact .quoted

theorem Move.of_readContentBetween {e : OpenElement} {part : OpenElement.Part} {s : Situation}
    (h : e.readBetween outer here c = .ok s) : Move here c ⟨.content e part, outer⟩ s := by
  unfold OpenElement.readBetween OpenElement.goOn at h
  split at h
  · cases h; exact .content (by simp_all)
  split at h
  · cases h; exact .enterBraces
  · cases h; exact .content (by simp)

theorem Move.of_readContent {e : OpenElement} {part : OpenElement.Part} {s : Situation}
    (h : e.read outer here c part = .ok s) : Move here c ⟨.content e part, outer⟩ s := by
  cases part with
  | between => exact .of_readContentBetween h
  | angle start =>
    simp only [OpenElement.read] at h
    split at h
    · cases h; exact .content (by simp)
    split at h
    · exact .contentElement ‹_› (OpenTag.nextInName_of_read h)
    · exact .of_readContentBetween h
  | closing start =>
    simp only [OpenElement.read, OpenElement.close] at h
    split at h
    · split at h
      · exact .close (by simp_all) (left_of_leave h)
      · simp at h
    · cases h; exact .content (by simp)

theorem Move.of_readTemplate {t : Template} {part : Template.Part} {s : Situation}
    (h : t.read outer c part = .ok s) : Move here c ⟨.template t part, outer⟩ s := by
  have between (h : t.readBetween outer c = .ok s) : Move here c ⟨.template t part, outer⟩ s := by
    unfold Template.readBetween Template.goOn at h
    split at h
    · cases h; exact .template
    split at h
    · exact .leaveTemplate (left_of_leave h)
    split at h
    · cases h; exact .template
    · cases h; exact .template
  cases part with
  | between => exact between h
  | escaped => cases h; exact .template
  | dollar =>
    simp only [Template.read] at h
    split at h
    · cases h; exact .enterSubstitution
    · exact between h

theorem Move.of_readClosing {s s₀ : Script} {part : Script.Part} {t : Situation}
    (h : s.readClosing outer here c = .ok t) (found : s.found = s₀.found) :
    Move here c ⟨.script s₀ part, outer⟩ t := by
  unfold Script.readClosing Script.goOn at h
  split at h
  · split at h
    · cases h; exact .script found (by simp)
    · simp at h
  · split at h
    · exact .leaveBraces (by simp_all) found (leftBraces_of_leaveBraces h)
    · simp at h

/-- The character may end a word or a pattern, which changes the script but for what it found. -/
theorem Move.of_readScriptBetween {s s₀ : Script} {part : Script.Part} {t : Situation}
    (h : s.readBetween outer here c = .ok t) (found : s.found = s₀.found) :
    Move here c ⟨.script s₀ part, outer⟩ t := by
  unfold Script.readBetween at h
  -- Quotes and templates are asked for first, then slashes, angles, closing brackets, blanks, words
  -- and opening brackets; what is left is an operator.
  split at h
  · cases h; exact .script found (by simp)
  split at h
  · cases h; exact .enterTemplate found
  split at h
  · cases h; exact .script found (by simp)
  split at h
  · cases h; exact .script found (by simp_all)
  split at h
  · exact .of_readClosing h found
  split at h
  · cases h; exact .script found (by simp)
  split at h
  · cases h; exact .script found (by simp)
  split at h
  · cases h; exact .script found (by simp)
  · cases h; exact .script found (by simp)

/-- What a character does inside a string, a comment or a pattern leaves what was found. -/
theorem Move.of_goOn {s s₀ : Script} {part part' : Script.Part} {t : Situation}
    (h : s.goOn part' outer = .ok t) (found : s.found = s₀.found) (angle : ∀ o, part' ≠ .angle o) :
    Move here c ⟨.script s₀ part, outer⟩ t := by
  cases h
  exact .script found fun o ho => absurd ho (angle o)

theorem Move.of_readPattern {s : Script} {part : Script.Part} {start : Nat}
    {inClass escaped : Bool} {t : Situation}
    (h : s.readPattern outer start inClass escaped c = .ok t) :
    Move here c ⟨.script s part, outer⟩ t := by
  unfold Script.readPattern at h
  split at h
  · exact .of_goOn h rfl (by simp)
  split at h
  · exact .of_goOn h rfl (by simp)
  split at h
  · exact .of_goOn h rfl (by simp)
  split at h
  · exact .of_goOn h rfl (by simp)
  split at h
  · exact .of_goOn h (by simp [Script.afterValue]) (by simp)
  split at h
  · simp at h
  · exact .of_goOn h rfl (by simp)

theorem Move.of_readString {s : Script} {part : Script.Part} {quote : Char} {start : Nat}
    {escaped : Bool} {t : Situation} (h : s.readString outer quote start escaped c = .ok t) :
    Move here c ⟨.script s part, outer⟩ t := by
  unfold Script.readString at h
  split at h
  · exact .of_goOn h rfl (by simp)
  split at h
  · exact .of_goOn h rfl (by simp)
  split at h
  · simp at h
  split at h
  · exact .of_goOn h (by simp [Script.afterValue]) (by simp)
  · exact .of_goOn h rfl (by simp)

/-- A character of a script goes on with the part that it is in or ends that part, and is then read
between two parts; only behind an angle bracket it may begin an element. -/
theorem Move.of_readScript {s : Script} {part : Script.Part} {t : Situation}
    (h : s.read outer here c part = .ok t) : Move here c ⟨.script s part, outer⟩ t := by
  cases part with
  | between => exact .of_readScriptBetween h rfl
  | word start =>
    simp only [Script.read] at h
    split at h
    · exact .of_goOn h rfl (by simp)
    · exact .of_readScriptBetween h rfl
  | string quote start escaped => exact .of_readString h
  | slash start =>
    simp only [Script.read] at h
    split at h
    · exact .of_goOn h rfl (by simp)
    split at h
    · exact .of_goOn h rfl (by simp)
    split at h
    · exact .of_readPattern h
    · exact .of_readScriptBetween h rfl
  | lineComment => exact .of_goOn h rfl (by split <;> simp)
  | blockComment start starred =>
    simp only [Script.read] at h
    split at h
    · exact .of_goOn h rfl (by simp)
    · exact .of_goOn h rfl (by simp)
  | pattern start inClass escaped => exact .of_readPattern h
  | flags =>
    simp only [Script.read] at h
    split at h
    · exact .of_goOn h rfl (by simp)
    · exact .of_readScriptBetween h rfl
  | angle start =>
    simp only [Script.read] at h
    split at h
    · exact .scriptElement ‹_› (OpenTag.nextInName_of_read h)
    · exact .of_readScriptBetween h rfl

/-- A character that is read makes a move. -/
theorem Move.of_read {s s' : Situation} (h : s.read here c = .ok s') : Move here c s s' := by
  obtain ⟨focus, outer⟩ := s
  cases focus with
  | script s part => exact .of_readScript h
  | template t part => exact .of_readTemplate h
  | tag t part => exact .of_readTag h
  | content e part => exact .of_readContent h

end Mockup.Jsx
