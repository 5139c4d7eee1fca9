import Mockup.Proofs.Jsx.Nesting

/-!
# Elements without a name

A fragment is an element without a name. Its angle brackets stand side by side, so there is no place
for an attribute in its opening tag. `Situation.Named` says so of all that a situation records, and
each move keeps it.

## Main results

* `Situation.Named.move`: a move keeps what a situation records named or without attributes.
* `attributes_eq_nil_of_tag_eq`: an element of a text without a name has no attributes.
-/

namespace Mockup.Jsx

/-! ### Situations -/

/-- Of some elements and all in them, those without a name have no attributes. -/
def AllNamed (es : List Element) : Prop :=
  ∀ e ∈ Element.walkAll es, e.tag = "" → e.attributes = []

/-- An opening tag that goes on after its name has one. -/
structure OpenTag.Named (t : OpenTag) : Prop where
  name : t.name ≠ ""
  found : AllNamed t.found

/-- An element whose opening tag was read. -/
structure OpenElement.Named (e : OpenElement) : Prop where
  attributes : e.tag.name = "" → e.tag.attributes = []
  found : AllNamed e.tag.found

/-- Of what waits, elements without a name have no attributes. -/
def Context.Named : Context → Prop
  | .script s => AllNamed s.found
  | .template t => AllNamed t.found
  | .tag t _ => t.Named
  | .content e => e.Named

/-- Of what is being read, elements without a name have no attributes. -/
def Focus.Named (here : Cursor) : Focus → Prop
  | .script s _ => AllNamed s.found
  | .template t _ => AllNamed t.found
  | .tag t .name => t.start + 1 < here.offset ∧ t.found = []
  | .tag t _ => t.Named
  | .content e _ => e.Named

/-- Elements without a name have no attributes. -/
structure Situation.Named (here : Cursor) (s : Situation) : Prop where
  outer : ∀ context ∈ s.outer, context.Named
  focus : s.focus.Named here

theorem AllNamed.nil : AllNamed [] := by
  simp [AllNamed]

theorem AllNamed.append {es fs : List Element} (hes : AllNamed es) (hfs : AllNamed fs) :
    AllNamed (es ++ fs) := by
  intro e he
  rw [Element.walkAll_append, List.mem_append] at he
  exact he.elim (hes e) (hfs e)

theorem OpenElement.Named.element {t : OpenTag} {openEnd openEnd' stop : Nat} {selfClosing : Bool}
    (h : (⟨t, openEnd⟩ : OpenElement).Named) : AllNamed [t.element openEnd' stop selfClosing] := by
  intro e he
  simp only [Element.walkAll_cons, Element.walkAll_nil, List.append_nil, List.mem_cons] at he
  rcases he with rfl | he
  · exact h.attributes
  · exact h.found e he

theorem OpenTag.Named.opened {t : OpenTag} (h : t.Named) (openEnd : Nat) :
    (⟨t, openEnd⟩ : OpenElement).Named :=
  ⟨fun hname => absurd hname h.name, h.found⟩

theorem OpenTag.Named.addAttribute {t : OpenTag} (h : t.Named) (a : OpenAttribute) (stop : Nat)
    (value : Option Value) : (t.addAttribute a stop value).Named :=
  ⟨h.name, h.found⟩

/-- There is a text since a place before the cursor. -/
theorem Cursor.since_ne_nil {here : Cursor} {place : Nat} (h : place < here.offset) :
    here.since place ≠ [] := by
  intro hnil
  rw [since, List.reverse_eq_nil_iff] at hnil
  cases hbehind : here.behind with
  | nil =>
    have hoffset := here.offset_eq
    rw [hbehind, Text.byteLength_nil] at hoffset
    omega
  | cons c cs =>
    rw [hbehind, Text.takeBytes, if_neg (by omega)] at hnil
    cases hnil

/-! ### Moves -/

namespace Situation.Named

variable {here here' : Cursor} {c : Char} {t : OpenTag} {outer : List Context} {s s' : Situation}

theorem next (tag : t.Named) (waiting : ∀ context ∈ outer, context.Named)
    (h : t.Next outer here c s) : s.Named here' := by
  cases h with
  | blank | slash | «attribute» => exact ⟨waiting, tag⟩
  | close => exact ⟨waiting, tag.opened _⟩
  | braces => exact ⟨List.forall_mem_cons.2 ⟨tag, waiting⟩, .nil⟩

theorem nextAfterName {a : OpenAttribute} {stop : Nat} (tag : t.Named)
    (waiting : ∀ context ∈ outer, context.Named) (h : t.NextAfterName a stop outer here c s) :
    s.Named here' := by
  cases h with
  | blank | equals => exact ⟨waiting, tag⟩
  | commit _ _ h => exact .next (tag.addAttribute a stop none) waiting h

/-- After the first character of a name the name is not empty when it ends. -/
theorem nextInName (hplace : t.start + 1 < here.offset) (hfound : t.found = [])
    (waiting : ∀ context ∈ outer, context.Named) (h : t.NextInName outer here c s) :
    s.Named (here.advance c) := by
  cases h with
  | more => exact ⟨waiting, Nat.lt_trans hplace (here.offset_lt_advance c), hfound⟩
  | done _ h =>
    refine .next ⟨fun hname => ?_, ?_⟩ waiting h
    · have hnil : here.since (t.start + 1) = [] := by
        rw [← String.toList_ofList (l := here.since (t.start + 1))]
        exact congrArg String.toList hname
      exact Cursor.since_ne_nil hplace hnil
    · show AllNamed t.found
      rw [hfound]
      exact .nil

/-- An element begins with the first character of its name, or it has none. -/
theorem opened {start : Nat} (hplace : here.offset = start + 1) (hc : opensElement c = true)
    (waiting : ∀ context ∈ outer, context.Named)
    (h : OpenTag.NextInName { start } outer here c s) : s.Named (here.advance c) := by
  cases h with
  | more =>
    have hlt := here.offset_lt_advance c
    exact ⟨waiting, hplace ▸ hlt, rfl⟩
  | done hchar h =>
    -- Of the characters that may begin an element only the bracket is none of a name.
    have hc : c = '>' := by
      simp only [opensElement, Bool.or_eq_true, beq_iff_eq] at hc
      rcases hc with halpha | hc
      · simp [isTagChar, Char.isAlphanum, halpha] at hchar
      · exact hc
    subst hc
    cases h with
    | close => exact ⟨waiting, fun _ => rfl, .nil⟩
    | blank hc | slash hc | braces hc | «attribute» hc => exact absurd hc (by decide)

theorem left {inner : List Element} (hinner : AllNamed inner)
    (waiting : ∀ context ∈ outer, context.Named) (h : Left inner outer s) : s.Named here' := by
  cases h with
  | script s rest =>
    obtain ⟨hs, hrest⟩ := List.forall_mem_cons.1 waiting
    exact ⟨hrest, AllNamed.append hs hinner⟩
  | content e rest =>
    obtain ⟨he, hrest⟩ := List.forall_mem_cons.1 waiting
    have he : e.Named := he
    exact ⟨hrest, he.attributes, he.found.append hinner⟩
  | astray => exact ⟨waiting, AllNamed.append .nil hinner⟩

theorem leftBraces {script : Script} (hfound : AllNamed script.found)
    (waiting : ∀ context ∈ outer, context.Named) (h : LeftBraces here script outer s) :
    s.Named here' := by
  -- Only the innermost context takes what was found; the others wait on.
  obtain ⟨hfirst, hrest⟩ : (∀ context ∈ outer.head?, context.Named) ∧
      ∀ context ∈ outer.tail, context.Named :=
    ⟨fun context hc => waiting context (List.mem_of_mem_head? hc),
      fun context hc => waiting context (List.mem_of_mem_tail hc)⟩
  cases h with
  | template t rest =>
    have ht : AllNamed t.found := hfirst _ rfl
    exact ⟨hrest, ht.append hfound⟩
  | tag t rest =>
    have ht : t.Named := hfirst _ rfl
    exact ⟨hrest, ht.name, ht.found.append hfound⟩
  | value t a start rest =>
    have ht : t.Named := hfirst _ rfl
    exact ⟨hrest, ht.name, ht.found.append hfound⟩
  | content e rest =>
    have he : e.Named := hfirst _ rfl
    exact ⟨hrest, he.attributes, he.found.append hfound⟩

/-- A move keeps what a situation records named or without attributes. -/
theorem move (h : s.Named here) (sound : s.Sound here) (m : Move here c s s') :
    s'.Named (here.advance c) := by
  obtain ⟨waiting, hfocus⟩ := h
  -- Only a move that begins, opens or ends an element has something to show; the others leave what
  -- was found where it is or put it among what waits outside.
  cases m with
  | script found =>
    refine ⟨waiting, ?_⟩
    show AllNamed _
    rw [found]
    exact hfocus
  | enterTemplate found =>
    refine ⟨List.forall_mem_cons.2 ⟨?_, waiting⟩, .nil⟩
    show AllNamed _
    rw [found]
    exact hfocus
  | leaveBraces _ found left =>
    refine leftBraces ?_ waiting left
    rw [found]
    exact hfocus
  | @scriptElement script _ _ _ hc next =>
    have hscript : Context.Named (.script script) := hfocus
    cases sound with
    | script _ _ angle =>
      exact opened (angle _ rfl).2.2 hc (List.forall_mem_cons.2 ⟨hscript, waiting⟩) next
  | @contentElement element _ _ _ hc next =>
    have helement : Context.Named (.content element) := hfocus
    cases sound with
    | content _ _ angle =>
      exact opened (angle _ rfl).2.2 hc (List.forall_mem_cons.2 ⟨helement, waiting⟩) next
  | template => exact ⟨waiting, hfocus⟩
  | enterSubstitution | enterBraces | enterValue =>
    exact ⟨List.forall_mem_cons.2 ⟨hfocus, waiting⟩, .nil⟩
  | leaveTemplate left => exact .left hfocus waiting left
  | name next => exact nextInName hfocus.1 hfocus.2 waiting next
  | tag next => exact .next hfocus waiting next
  | selfClose _ left =>
    have ht : OpenTag.Named _ := hfocus
    exact .left (ht.opened 0).element waiting left
  | close _ left =>
    have he : OpenElement.Named _ := hfocus
    exact .left he.element waiting left
  | «attribute» | equals | quote | quoted => exact ⟨waiting, hfocus⟩
  | attributeName _ next => exact nextAfterName hfocus waiting next
  | gap next => exact nextAfterName hfocus waiting next
  | unquote => exact ⟨waiting, OpenTag.Named.addAttribute hfocus _ _ _⟩
  | content => exact ⟨waiting, hfocus⟩

end Situation.Named

/-! ### Texts -/

/-- An element of a text without a name has no attributes. -/
theorem attributes_eq_nil_of_tag_eq {source : List Char} {es : List Element} {e : Element}
    (h : scan source = .ok es) (he : e ∈ Element.walkAll es) (htag : e.tag = "") :
    e.attributes = [] := by
  obtain ⟨here, s, part, hrun, -, -, rfl⟩ := scan_eq_ok_iff.1 h
  have hinvariant := Scan.run_invariant
    (P := fun s => s.situation.Sound s.cursor ∧ s.situation.Named s.cursor)
    (fun {s t c} hs hstep => by
      obtain ⟨x, hread, rfl⟩ := Scan.step_eq_ok_iff.1 hstep
      exact ⟨hs.1.move (.of_read hread), hs.2.move hs.1 (.of_read hread)⟩)
    (s := Scan.start) ⟨Scan.sound_start, by simp [Scan.start], .nil⟩ hrun
  exact hinvariant.2.focus e he htag

end Mockup.Jsx
