import Mockup.Proofs.Jsx.Above
import Mockup.Proofs.Jsx.Opening
import Mockup.Proofs.Jsx.Subtree

/-!
# Elements read alone

An element is read between the angle bracket that opens it and its last character. A scan of its
text alone makes the same moves, with nothing waiting below; so it finds the same element at the
start of the text, and nothing else.

* `s.Ends here cs e` — from the situation `s` the text `cs` ends the element `e`.
* `s.complete` — the elements of which the end was read.
* `x.Alone source es i` — the text of the entry `x` is scanned as the entries below it.

## Main results

* `Situation.exists_ends`: a text that leads out of an element ends it on the way.
* `exists_scan_of_opensAt`: where an element opens, its own text is scanned as that element.
* `alone_of_scan`: every element of a text is read alone.
-/

namespace Mockup.Jsx

/-! ### The end of an element -/

section Lowest

variable {here : Cursor} {c : Char} {t : OpenTag} {outer : List Context} {s s' : Situation}

theorem OpenTag.Next.lowest?_eq (h : t.Next outer here c s) :
    s.lowest? = lowest? (some t.start) outer := by
  cases h <;> rfl

theorem OpenTag.NextInName.lowest?_eq (h : t.NextInName outer here c s) :
    s.lowest? = lowest? (some t.start) outer := by
  cases h with
  | more => rfl
  | done _ next => exact next.lowest?_eq

theorem OpenTag.NextAfterName.lowest?_eq {a : OpenAttribute} {stop : Nat}
    (h : t.NextAfterName a stop outer here c s) : s.lowest? = lowest? (some t.start) outer := by
  cases h with
  | blank | equals => rfl
  | commit _ _ next => exact next.lowest?_eq

theorem Left.lowest?_eq {inner : List Element} (h : Left inner outer s) :
    s.lowest? = lowest? none outer := by
  cases h <;> rfl

theorem LeftBraces.lowest?_eq {script : Script} (h : LeftBraces here script outer s) :
    s.lowest? = lowest? none outer := by
  cases h <;> rfl

/-- What a tag leaves when it ends: the element around it, or nothing but its element. -/
theorem Left.lowest?_or {openEnd stop place : Nat} {selfClosing : Bool}
    (h : Left [t.element openEnd stop selfClosing] outer s)
    (hplace : lowest? (some t.start) outer = some place) :
    s.lowest? = some place ∨ ∃ e, s = ⟨.script (Script.afterValue {} [e]) .between, []⟩ ∧
      e.start = place ∧ e.stop = stop := by
  cases outer with
  | nil =>
    cases h with
    | astray => exact .inr ⟨_, rfl, Option.some_inj.1 hplace, rfl⟩
  | cons context rest => exact .inl (h.lowest?_eq.trans hplace)

/-- A move stays in the lowest element, or ends it. -/
theorem Move.lowest?_or {place : Nat} (m : Move here c s s') (h : s.lowest? = some place) :
    s'.lowest? = some place ∨ ∃ e, s' = ⟨.script (Script.afterValue {} [e]) .between, []⟩ ∧
      e.start = place ∧ e.stop = (here.advance c).offset := by
  have hoffset (hc : c = '>') : (here.advance c).offset = here.offset + 1 :=
    Cursor.offset_advance_eq (by rw [hc]; decide)
  cases m with
  | script | enterTemplate | template | enterSubstitution | «attribute» | equals | quote
  | enterValue | quoted | unquote | content | enterBraces => exact .inl h
  | leaveBraces _ _ left => exact .inl (left.lowest?_eq.trans h)
  | leaveTemplate left => exact .inl (left.lowest?_eq.trans h)
  | scriptElement _ next | contentElement _ next => exact .inl (next.lowest?_eq.trans h)
  | name next => exact .inl (next.lowest?_eq.trans h)
  | tag next => exact .inl (next.lowest?_eq.trans h)
  | attributeName _ next | gap next => exact .inl (next.lowest?_eq.trans h)
  | selfClose hc left | close hc left =>
    rw [hoffset hc]
    exact left.lowest?_or h

end Lowest

/-- From a situation inside an element, a text ends the element `e` with its last character,
whatever waits below and wherever the text stands. -/
def Situation.Ends (s : Situation) (here' : Cursor) (cs : List Char) (e : Element) : Prop :=
  ∀ (n : Nat) (base : List Context) (here : Cursor) (m : Situation), here.Ahead n here' →
    leave [e.moved n] base = .ok m → (s.above n base).Reads here cs m

section Ends

variable {n place : Nat} {base : List Context} {here here' : Cursor} {s t : Situation}
  {cs : List Char}

/-- Inside an element, no script is read with nothing around it. -/
theorem Situation.above_ne_script {script : Script} {part : Script.Part}
    (h : s.lowest? = some place) : s.above n base ≠ ⟨.script script part, []⟩ := by
  obtain ⟨focus, outer⟩ := s
  intro heq
  cases outer with
  | cons context outer => exact List.cons_ne_nil _ _ (congrArg Situation.outer heq)
  | nil =>
    cases focus with
    | script | template => cases h
    | tag | content => cases heq

/-- A text that leads out of an element ends it on the way. -/
theorem Situation.exists_ends (h : s.lowest? = some place) (ahead : here.Ahead n here')
    (hreads : (s.above n base).Reads here cs t)
    (hout : ∀ s' : Situation, s'.lowest? = some place → t ≠ s'.above n base) :
    ∃ c inner after e m, cs = c :: inner ++ after ∧ e.start = place ∧
      e.stop = (here'.after (c :: inner)).offset ∧ s.Ends here' (c :: inner) e ∧
      leave [e.moved n] base = .ok m ∧ m.Reads (here.after (c :: inner)) after t := by
  induction cs generalizing s here here' with
  | nil =>
    have hstays := (Situation.Reads.nil _ _).unique hreads
    exact absurd hstays.symm (hout s h)
  | cons c cs ih =>
    obtain ⟨m, hm, hrest⟩ := hreads.of_cons
    have hbelow (n : Nat) (base : List Context) (here : Cursor) (ahead : here.Ahead n here') :=
      Situation.read_above base c h ahead
    rw [hbelow n base here ahead] at hm
    cases hread : s.read here' c with
    | error e => rw [hread] at hm; cases hm
    | ok s' =>
      rw [hread] at hm hbelow
      rcases (Move.of_read hread).lowest?_or h with hin | ⟨e, rfl, hstart, hstop⟩
      · -- The element is still open.
        have hm' : m = s'.above n base := by
          have hover := Situation.over_of_lowest? n base hin
          exact Except.ok.inj (hm.symm.trans hover)
        rw [hm'] at hrest
        obtain ⟨d, inner, after, e, m', rfl, hstart, hstop, ends, hleave, hafter⟩ :=
          ih hin (ahead.advance c) hrest
        refine ⟨c, d :: inner, after, e, m', rfl, hstart, hstop, ?_, hleave, hafter⟩
        intro n base here m ahead hleave
        refine .cons ?_ (ends n base _ m (ahead.advance c) hleave)
        rw [hbelow n base here ahead]
        exact Situation.over_of_lowest? n base hin
      · refine ⟨c, [], cs, e, m, rfl, hstart, hstop, ?_, hm, hrest⟩
        intro n base here m ahead hleave
        refine .single ?_
        rw [hbelow n base here ahead]
        exact hleave

end Ends

/-! ### Elements that are complete -/

/-- The elements found in what waits. -/
def Context.found : Context → List Element
  | .script s => s.found
  | .template t => t.found
  | .tag t _ => t.found
  | .content e => e.tag.found

/-- The elements found in what is being read. -/
def Focus.found : Focus → List Element
  | .script s _ => s.found
  | .template t _ => t.found
  | .tag t _ => t.found
  | .content e _ => e.tag.found

/-- The elements of which the end was read. -/
def Situation.complete (s : Situation) : List Element :=
  Element.walkAll ((s.outer.reverse.flatMap Context.found) ++ s.focus.found)

section Complete

variable {here : Cursor} {c : Char} {t : OpenTag} {outer : List Context} {s s' : Situation}

theorem OpenTag.Next.complete_eq (h : t.Next outer here c s) :
    s.complete = Element.walkAll (outer.reverse.flatMap Context.found ++ t.found) := by
  cases h <;> simp [Situation.complete, Focus.found, Context.found]

theorem OpenTag.NextInName.complete_eq (h : t.NextInName outer here c s) :
    s.complete = Element.walkAll (outer.reverse.flatMap Context.found ++ t.found) := by
  cases h with
  | more => rfl
  | done _ next => exact next.complete_eq

theorem OpenTag.NextAfterName.complete_eq {a : OpenAttribute} {stop : Nat}
    (h : t.NextAfterName a stop outer here c s) :
    s.complete = Element.walkAll (outer.reverse.flatMap Context.found ++ t.found) := by
  cases h with
  | blank | equals => rfl
  | commit _ _ next => exact next.complete_eq

theorem Left.complete_eq {inner : List Element} (h : Left inner outer s) :
    s.complete = Element.walkAll (outer.reverse.flatMap Context.found ++ inner) := by
  cases h <;>
    simp [Situation.complete, Focus.found, Context.found, Script.afterValue, OpenElement.add,
      OpenTag.add]

theorem LeftBraces.complete_eq {script : Script} (h : LeftBraces here script outer s) :
    s.complete = Element.walkAll (outer.reverse.flatMap Context.found ++ script.found) := by
  cases h <;>
    simp [Situation.complete, Focus.found, Context.found, OpenElement.add, OpenTag.add,
      OpenTag.addAttribute]

/-- What a move completes is added to what was complete. -/
theorem Move.complete_subset (m : Move here c s s') : s.complete ⊆ s'.complete := by
  cases m with
  | script found | enterTemplate found =>
    simp [Situation.complete, Focus.found, Context.found, found]
  | leaveBraces _ found left =>
    rw [left.complete_eq, found]
    exact List.Subset.refl _
  | scriptElement _ next | contentElement _ next =>
    rw [next.complete_eq]
    simp [Situation.complete, Focus.found, Context.found]
  | template | «attribute» | equals | quote | quoted | unquote | content =>
    exact List.Subset.refl _
  | enterSubstitution | enterValue | enterBraces =>
    simp [Situation.complete, Focus.found, Context.found]
  | leaveTemplate left =>
    rw [left.complete_eq]
    exact List.Subset.refl _
  | name next =>
    rw [next.complete_eq]
    exact List.Subset.refl _
  | tag next =>
    rw [next.complete_eq]
    exact List.Subset.refl _
  | selfClose _ left | close _ left =>
    -- The element is complete too.
    rw [left.complete_eq]
    intro f
    simp [Situation.complete, Focus.found, OpenTag.element]
    tauto
  | attributeName _ next | gap next =>
    rw [next.complete_eq]
    exact List.Subset.refl _

/-- What is complete stays complete while a text is read. -/
theorem Situation.Reads.complete_subset {cs : List Char} (h : s.Reads here cs s') :
    s.complete ⊆ s'.complete := by
  induction cs generalizing s here with
  | nil =>
    obtain rfl := h.unique (.nil _ _)
    exact List.Subset.refl _
  | cons c cs ih =>
    obtain ⟨m, hm, hrest⟩ := h.of_cons
    exact List.Subset.trans (Move.of_read hm).complete_subset (ih hrest)

end Complete

/-! ### Texts of elements -/

section Texts

variable {c : Char} {cs : List Char} {e : Element}

/-- Before the name of an element, at the start of a text. -/
def Situation.opening : Situation :=
  ⟨.tag { start := 0 } .name, []⟩

theorem Situation.above_opening (n : Nat) (base : List Context) :
    opening.above n base = ⟨.tag { start := n } .name, base⟩ := by
  simp [opening, above, Jsx.above, Focus.moved, OpenTag.moved, OpenTag.Part.moved]

/-- A text is read from a situation if it is read from one in which its first character does the
same. -/
theorem Situation.Reads.of_read_eq {s s' t : Situation} {here : Cursor}
    (h : s.Reads here (c :: cs) t) (heq : s'.read here c = s.read here c) :
    s'.Reads here (c :: cs) t := by
  obtain ⟨m, hm, hrest⟩ := h.of_cons
  exact .cons (heq.trans hm) hrest

/-- A text that opens an element and ends it with its last character is scanned as that element. -/
theorem scan_of_ends (hc : opensElement c = true)
    (h : Situation.opening.Ends (Cursor.start.advance '<') (c :: cs) e) :
    scan ('<' :: c :: cs) = .ok [e] := by
  have hreads := h 0 [.script {}] _ ⟨.script (Script.afterValue {} [e]) .between, []⟩ (.refl _)
    (by rw [Element.moved_zero]; rfl)
  rw [Situation.above_opening] at hreads
  have hopen : Situation.angle? ⟨.script {} (.angle 0), []⟩ = some (0, [.script {}]) := rfl
  refine scan_eq_of_reads (.cons ?_ (hreads.of_read_eq (Situation.read_of_angle? hopen hc _))) rfl
  rfl

/-- Where an element opens in a text, its own text ends the element, whatever waits below. -/
theorem exists_ends_of_opensAt {source : List Char} {place : Nat} {es : List Element}
    (h : scan source = .ok es) (opens : OpensAt source place) :
    ∃ before c inner after e, source = before ++ '<' :: c :: inner ++ after ∧
      Text.byteLength before = place ∧ opensElement c = true ∧
      Situation.opening.Ends (Cursor.start.advance '<') (c :: inner) e ∧ e.start = 0 ∧
      e.stop = Text.byteLength ('<' :: c :: inner) ∧ e.moved place ∈ Element.walkAll es := by
  obtain ⟨before, c, rest, s, base, rfl, rfl, reached, hangle, hc⟩ := opens
  obtain ⟨here, script, part, hrun, -, -, rfl⟩ := scan_eq_ok_iff.1 h
  obtain ⟨hreads, -⟩ := Situation.reads_of_run hrun
  rw [show before ++ '<' :: c :: rest = (before ++ ['<']) ++ c :: rest by simp] at hreads
  obtain ⟨m, hm, hrest⟩ := hreads.of_append
  obtain rfl := reached.unique hm
  have hrest := hrest.of_read_eq (Situation.read_of_angle? hangle hc _).symm
  rw [← Situation.above_opening] at hrest
  have ahead : (Cursor.start.after (before ++ ['<'])).Ahead (Text.byteLength before)
      (Cursor.start.advance '<') := ⟨before, by simp, rfl⟩
  have hlowest : Situation.opening.lowest? = some 0 := rfl
  obtain ⟨d, inner, after, e, m', hcs, hstart, hstop, ends, hleave, hafter⟩ :=
    Situation.exists_ends hlowest ahead hrest fun s' hs' => (Situation.above_ne_script hs').symm
  obtain ⟨rfl, rfl⟩ := List.cons_eq_cons.1 hcs
  refine ⟨before, c, inner, after, e, by simp, rfl, hc, ends, hstart, ?_, ?_⟩
  · rw [hstop, Cursor.offset_after]
    rfl
  · -- The element is complete when it ends, and so it is at the end of the text.
    have hfinal := hafter.complete_subset
    rw [(left_of_leave hleave).complete_eq] at hfinal
    exact hfinal (by simp)

/-- Where an element opens in a text, it ends in the text, and its own text is scanned as that
element at the start. -/
theorem exists_scan_of_opensAt {source : List Char} {place : Nat} {es : List Element}
    (h : scan source = .ok es) (opens : OpensAt source place) :
    ∃ before inner after e, source = before ++ inner ++ after ∧ Text.byteLength before = place ∧
      scan inner = .ok [e] ∧ e.start = 0 ∧ e.stop = Text.byteLength inner ∧
      e.moved place ∈ Element.walkAll es := by
  obtain ⟨before, c, inner, after, e, hsource, hbefore, hc, ends, hstart, hstop, hmem⟩ :=
    exists_ends_of_opensAt h opens
  exact ⟨before, '<' :: c :: inner, after, e, hsource, hbefore, scan_of_ends hc ends, hstart, hstop,
    hmem⟩

end Texts

/-! ### Entries -/

/-- The text of an entry at a position, on its own, has the element `e` and those below it: the same
elements with their relations as in the whole text, at places from the start of the text and at
positions from the first one. -/
structure Element.Entry.Alone (source : List Char) (es : List Element) (i : Nat) (x : Entry)
    (e : Element) : Prop where
  /-- The text is scanned as that element. -/
  scan_eq : scan (x.element.textIn source) = .ok [e]
  /-- The entries from the position on are those of the element, moved to where it stands. -/
  entries_eq : ((entriesOfAll none 0 es).drop i).take x.element.size =
    (entriesOfAll none 0 [e]).map (Entry.moved x.element.start i x.parent)
  /-- These are the entry and those that descend from it. -/
  subtree_iff : ∀ j, (j = i ∨ Descends (entriesOfAll none 0 es) j i) ↔
    i ≤ j ∧ j < i + x.element.size
  /-- On its own, only the first entry has no parent. -/
  parent_eq_none_iff : ∀ j y, (entriesOfAll none 0 [e])[j]? = some y → (y.parent = none ↔ j = 0)
  /-- The element is the whole text. -/
  span_eq : e.start = 0 ∧ e.stop = Text.byteLength (x.element.textIn source)

/-- Of the entries of one element, only the first one has no parent. -/
theorem Element.parent_eq_none_iff_of_singleton {e : Element} {j : Nat} {y : Entry}
    (hy : (entriesOfAll none 0 [e])[j]? = some y) : y.parent = none ↔ j = 0 := by
  rw [entriesOfAll_cons] at hy
  cases j with
  | zero =>
    obtain rfl := Option.some_inj.1 hy
    exact iff_of_true rfl rfl
  | succ j =>
    rw [List.getElem?_cons_succ, entriesOfAll_nil, List.append_nil] at hy
    obtain ⟨p, hp, -⟩ := le_parent_of_mem (List.mem_of_getElem? hy)
    rw [hp]
    exact iff_of_false (Option.some_ne_none p) (Nat.succ_ne_zero j)

/-- Every element of a text is read alone as it is read in the text. -/
theorem alone_of_scan {source : List Char} {es : List Element} (h : scan source = .ok es) {i : Nat}
    {x : Element.Entry} (hx : (Element.entriesOfAll none 0 es)[i]? = some x) :
    ∃ e, x.Alone source es i e := by
  have hmem : x.element ∈ Element.walkAll es := by
    rw [← Element.map_element_entriesOfAll none 0 es]
    exact List.mem_map_of_mem (List.mem_of_getElem? hx)
  obtain ⟨before, inner, after, e, rfl, hbefore, hscan, hstart, hstop, he⟩ :=
    exists_scan_of_opensAt h (opensAt_of_scan h hmem)
  -- Two elements of one text that begin at one place are the same.
  have heq : e.moved x.element.start = x.element := by
    refine (forest_of_scan h).eq_of_start_eq he hmem ?_
    rw [Element.start_moved, hstart, Nat.zero_add]
  have htext : x.element.textIn (before ++ inner ++ after) = inner := by
    have hend : x.element.stop = Text.byteLength before + Text.byteLength inner := by
      rw [← heq, Element.stop_moved, hstop, hbefore, Nat.add_comm]
    rw [Element.textIn, hend, ← hbefore]
    exact Text.slice_append before inner after
  have hentries : (Element.entriesOfAll none 0 [e]).map
      (Element.Entry.moved x.element.start i x.parent) = Element.entries x.parent i x.element := by
    have hmoved := Element.entriesOfAll_moved (n := x.element.start) (i := i) none x.parent 0 [e]
    rw [← hmoved, List.map_singleton, heq, Nat.zero_add, Element.entriesOfAll_cons,
      Element.entriesOfAll_nil, List.append_nil, ← Element.entries_eq]
    rfl
  have hlength : (Element.entries x.parent i x.element).length = x.element.size := by
    rw [Element.entries_eq, List.length_cons, Element.length_entriesOfAll, Element.size_eq]
  refine ⟨e, ?_, ?_, fun j => ?_, fun j y => Element.parent_eq_none_iff_of_singleton, hstart, ?_⟩
  · rw [htext]
    exact hscan
  · have hprefix := Element.entries_prefix_drop hx
    rw [Nat.zero_add, List.prefix_iff_eq_take, hlength] at hprefix
    rw [hentries, hprefix]
  · have hsize := Element.size_eq x.element
    rw [Element.descends_iff hx]
    omega
  · rw [htext]
    exact hstop

/-- An element in a template in a value of another one, with a value and an element of its own. -/
def templateText : List Char :=
  "a<b ? <p q=\x7b\x60$\x7b<i r=\x7bs\x7d><u/></i>\x7d\x60\x7d>t</p> : 0".toList

/-- The element in the template is read alone. -/
theorem alone_of_scan_template : ∃ es x e, scan templateText = .ok es ∧
    (Element.entriesOfAll none 0 es)[1]? = some x ∧
    x.element.textIn templateText = "<i r=\x7bs\x7d><u/></i>".toList ∧
    x.Alone templateText es 1 e := by
  have hscan : (scan templateText).toOption.bind (fun es =>
      (Element.entriesOfAll none 0 es)[1]?.map fun x => x.element.textIn templateText) =
        some "<i r=\x7bs\x7d><u/></i>".toList := by decide +kernel
  obtain ⟨es, hes, hentry⟩ := Option.bind_eq_some_iff.1 hscan
  obtain ⟨x, hx, htext⟩ := Option.map_eq_some_iff.1 hentry
  have h : scan templateText = .ok es := by
    cases hok : scan templateText with
    | error e => rw [hok] at hes; cases hes
    | ok es' => rw [hok] at hes; cases hes; rfl
  obtain ⟨e, he⟩ := alone_of_scan h hx
  exact ⟨es, x, e, h, hx, htext, he⟩

end Mockup.Jsx
