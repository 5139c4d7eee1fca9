import Mockup.Proofs.Jsx.Move
import Mockup.Proofs.Jsx.Moved
import Mockup.Proofs.Jsx.Reads

/-!
# Reading an element above what waits for it

Reading an element does not look at what waits for the element, nor at the place where it stands:
over other contexts and `n` bytes further on, every character does the same, until the element ends.

* `s.above n base` — the situation `s`, moved by `n` bytes, with `base` waiting below.
* `s.over n base` — the same, or what leaving to `base` leads to if `s` has nothing open any more.
* `s.lowest?` — the place of the lowest thing that is open, if it is an element.

## Main results

* `Situation.read_above`: a character does the same above other contexts.
-/

namespace Mockup.Jsx

/-! ### What is open lowest -/

/-- The place of the element that is being read, if one is. -/
def Focus.start? : Focus → Option Nat
  | .tag t _ => some t.start
  | .content e _ => some e.tag.start
  | .script _ _ | .template _ _ => none

/-- The place of the element that waits, if one does. -/
def Context.start? : Context → Option Nat
  | .tag t _ => some t.start
  | .content e => some e.tag.start
  | .script _ | .template _ => none

/-- The place of the lowest of several things, the first of which may be the element at a place. -/
def lowest? (start? : Option Nat) : List Context → Option Nat
  | [] => start?
  | c :: outer => lowest? c.start? outer

/-- The place of the element around all that is being read, if there is one. -/
def Situation.lowest? (s : Situation) : Option Nat :=
  Jsx.lowest? s.focus.start? s.outer

/-! ### Other contexts below -/

/-- What waits, moved by `n` bytes, with `base` below. -/
def above (n : Nat) (base outer : List Context) : List Context :=
  outer.map (Context.moved n) ++ base

/-- A situation, moved by `n` bytes, with `base` below. -/
def Situation.above (n : Nat) (base : List Context) (s : Situation) : Situation :=
  ⟨s.focus.moved n, Jsx.above n base s.outer⟩

/-- A situation, moved by `n` bytes, with `base` below. A script with nothing around it is what is
left of an element that ended, which leads on to `base`. -/
def Situation.over (n : Nat) (base : List Context) : Situation → Scanned
  | ⟨.script s _, []⟩ => leave (s.found.map (Element.moved n)) base
  | s => .ok (s.above n base)

/-- The outcome of reading a character, moved by `n` bytes, with `base` below. -/
def Scanned.over (n : Nat) (base : List Context) : Scanned → Scanned
  | .ok s => s.over n base
  | .error e => .error (e.moved n)

variable {n place : Nat} {base outer : List Context} {here here' : Cursor} {c : Char}

theorem Situation.over_of_lowest? (n : Nat) (base : List Context) {s : Situation}
    (h : s.lowest? = some place) : s.over n base = .ok (s.above n base) := by
  obtain ⟨focus, outer⟩ := s
  cases focus with
  | script s part =>
    cases outer with
    | nil => cases h
    | cons c outer => rfl
  | _ => rfl

/-- Both outcomes depend on the same condition. -/
theorem Scanned.ite_over {p : Prop} [Decidable p] {x y x' y' : Scanned}
    (hx : p → x' = x.over n base) (hy : ¬p → y' = y.over n base) :
    (if p then x' else y') = (if p then x else y).over n base := by
  by_cases hp : p
  · rw [if_pos hp, if_pos hp]
    exact hx hp
  · rw [if_neg hp, if_neg hp]
    exact hy hp

/-! ### Going in and out -/

/-- A script does not go on alone: it is what is left of an element. -/
theorem Script.goOn_above (n : Nat) (base : List Context) (s : Script) (part : Script.Part)
    (h : outer ≠ []) :
    (s.moved n).goOn (part.moved n) (above n base outer) = (s.goOn part outer).over n base := by
  cases outer with
  | nil => exact absurd rfl h
  | cons c outer => rfl

theorem Template.goOn_above (n : Nat) (base outer : List Context) (t : Template)
    (part : Template.Part) :
    (t.moved n).goOn part (above n base outer) = (t.goOn part outer).over n base := rfl

theorem OpenTag.goOn_above (n : Nat) (base outer : List Context) (t : OpenTag)
    (part : OpenTag.Part) :
    (t.moved n).goOn (part.moved n) (above n base outer) = (t.goOn part outer).over n base := rfl

theorem OpenElement.goOn_above (n : Nat) (base outer : List Context) (e : OpenElement)
    (part : OpenElement.Part) :
    (e.moved n).goOn (part.moved n) (above n base outer) = (e.goOn part outer).over n base := rfl

/-- What leaves an element for a context goes on there; what leaves the lowest element goes on in
`base`. -/
theorem leave_above (n : Nat) (base : List Context) (inner : List Element)
    (h : ∀ s, outer ≠ [.script s]) :
    leave (inner.map (Element.moved n)) (above n base outer) = (leave inner outer).over n base := by
  cases outer with
  | nil => rfl
  | cons context rest =>
    cases context with
    | script s =>
      have hrest : rest ≠ [] := fun hnil => h s (by rw [hnil])
      have hgoOn := Script.goOn_above n base (s.afterValue inner) .between hrest
      rw [← Script.afterValue_moved] at hgoOn
      exact hgoOn
    | content e =>
      have hgoOn := OpenElement.goOn_above n base rest (e.add inner) .between
      rw [← OpenElement.add_moved] at hgoOn
      exact hgoOn
    | template t => rfl
    | tag t value => cases value <;> rfl

theorem leaveBraces_above (s : Script) (ahead : here.Ahead n here') (h : outer ≠ []) :
    leaveBraces here (s.moved n) (above n base outer) =
      (leaveBraces here' s outer).over n base := by
  cases outer with
  | nil => exact absurd rfl h
  | cons context rest =>
    -- Where the braces belong decides who gets the found elements; all of these are moved alike.
    cases context with
    | script => exact congrArg (failAt · .unopenedBracket) ahead.offset_eq
    | template t =>
      have hgoOn := Template.goOn_above n base rest { t with found := t.found ++ s.found } .between
      rw [Template.moved, List.map_append] at hgoOn
      exact hgoOn
    | content e =>
      have hgoOn := OpenElement.goOn_above n base rest (e.add s.found) .between
      rw [← OpenElement.add_moved] at hgoOn
      exact hgoOn
    | tag t value =>
      cases value with
      | none =>
        have hgoOn := OpenTag.goOn_above n base rest (t.add s.found) .between
        rw [← OpenTag.add_moved] at hgoOn
        exact hgoOn
      | some value =>
        obtain ⟨a, start⟩ := value
        have hgoOn := OpenTag.goOn_above n base rest
          ((t.add s.found).addAttribute a (here'.offset + 1)
            (some (.braced (here'.since (start + 1))))) .between
        rw [← OpenTag.addAttribute_moved, ← OpenTag.add_moved, Nat.add_right_comm,
          ← ahead.offset_eq] at hgoOn
        refine Eq.trans ?_ hgoOn
        rw [← ahead.since_add_eq]
        rfl

/-! ### Reading a character of an opening tag -/

theorem OpenTag.readBetween_above (c : Char) (base outer : List Context) (t : OpenTag)
    (ahead : here.Ahead n here') :
    (t.moved n).readBetween (above n base outer) here c =
      (t.readBetween outer here' c).over n base := by
  unfold OpenTag.readBetween
  rw [ahead.offset_eq]
  refine Scanned.ite_over (fun _ => rfl) fun _ => ?_
  refine Scanned.ite_over (fun _ => rfl) fun _ => ?_
  refine Scanned.ite_over (fun _ => ?_) fun _ => ?_
  · rw [Nat.add_right_comm]
    rfl
  refine Scanned.ite_over (fun _ => rfl) fun _ => ?_
  exact Scanned.ite_over (fun _ => rfl) fun _ => rfl

theorem OpenTag.named_moved (t : OpenTag) (ahead : here.Ahead n here') :
    (t.moved n).named here = (t.named here').moved n := by
  have hname : here.since ((t.moved n).start + 1) = here'.since (t.start + 1) :=
    ahead.since_add_eq t.start 1
  rw [OpenTag.named, hname, ahead.offset_eq]
  rfl

theorem OpenTag.readGap_above (t : OpenTag) (a : OpenAttribute) (stop : Nat)
    (ahead : here.Ahead n here') :
    (t.moved n).readGap (a.moved n) (stop + n) (above n base outer) here c =
      (t.readGap a stop outer here' c).over n base := by
  unfold OpenTag.readGap
  refine Scanned.ite_over (fun _ => rfl) fun _ => ?_
  refine Scanned.ite_over (fun _ => rfl) fun _ => ?_
  rw [OpenTag.addAttribute_moved]
  exact OpenTag.readBetween_above c base outer _ ahead

theorem OpenTag.read_above (outer : List Context) (t : OpenTag) (part : OpenTag.Part)
    (ahead : here.Ahead n here') (h : ∀ s, outer ≠ [.script s]) :
    (t.moved n).read (above n base outer) here c (part.moved n) =
      (t.read outer here' c part).over n base := by
  have hoffset := ahead.offset_eq
  cases part with
  | name =>
    refine Scanned.ite_over (fun _ => rfl) fun _ => ?_
    have hread := OpenTag.readBetween_above c base outer (t.named here') ahead
    rw [← OpenTag.named_moved t ahead] at hread
    exact hread
  | between => exact OpenTag.readBetween_above c base outer t ahead
  | slash start =>
    refine Scanned.ite_over (fun _ => ?_) fun _ => rfl
    rw [hoffset, Nat.add_right_comm, OpenTag.element_moved]
    exact leave_above n base [_] h
  | «attribute» start =>
    refine Scanned.ite_over (fun _ => rfl) fun _ => ?_
    rw [hoffset, ahead.since_eq]
    exact OpenTag.readGap_above t ⟨_, start⟩ _ ahead
  | gap a stop => exact OpenTag.readGap_above t a stop ahead
  | equals a =>
    -- The three questions about the character have the same answer, as only places are moved.
    simp only [OpenTag.Part.moved, OpenTag.read]
    rw [hoffset]
    refine Scanned.ite_over (fun _ => rfl) fun _ => ?_
    refine Scanned.ite_over (fun _ => rfl) fun _ => ?_
    exact Scanned.ite_over (fun _ => rfl) fun _ => rfl
  | quoted a quote start =>
    refine Scanned.ite_over (fun _ => ?_) fun _ => rfl
    rw [hoffset, Nat.add_right_comm, ahead.since_add_eq, OpenTag.addAttribute_moved]
    rfl

/-! ### Reading a character of a content -/

theorem OpenElement.readBetween_above (e : OpenElement) (ahead : here.Ahead n here') :
    (e.moved n).readBetween (above n base outer) here c =
      (e.readBetween outer here' c).over n base := by
  unfold OpenElement.readBetween
  rw [ahead.offset_eq]
  refine Scanned.ite_over (fun _ => rfl) fun _ => ?_
  exact Scanned.ite_over (fun _ => rfl) fun _ => rfl

theorem OpenElement.close_above (e : OpenElement) (start : Nat) (ahead : here.Ahead n here')
    (h : ∀ s, outer ≠ [.script s]) :
    (e.moved n).close (start + n) (above n base outer) here =
      (e.close start outer here').over n base := by
  unfold OpenElement.close
  rw [ahead.since_add_eq, ahead.offset_eq, Nat.add_right_comm]
  refine Scanned.ite_over (fun _ => ?_) fun _ => rfl
  have hleave := leave_above n base [e.tag.element e.openEnd (here'.offset + 1) false] h
  rw [List.map_singleton, ← OpenTag.element_moved] at hleave
  exact hleave

theorem OpenElement.read_above (e : OpenElement) (part : OpenElement.Part)
    (ahead : here.Ahead n here') (h : ∀ s, outer ≠ [.script s]) :
    (e.moved n).read (above n base outer) here c (part.moved n) =
      (e.read outer here' c part).over n base := by
  cases part with
  | between => exact OpenElement.readBetween_above e ahead
  | angle start =>
    refine Scanned.ite_over (fun _ => rfl) fun _ => ?_
    refine Scanned.ite_over (fun _ => ?_) fun _ => OpenElement.readBetween_above e ahead
    exact OpenTag.read_above (.content e :: outer) { start } .name ahead (by simp)
  | closing start =>
    exact Scanned.ite_over (fun _ => OpenElement.close_above e start ahead h) fun _ => rfl

/-! ### Reading a character of a template -/

theorem Template.readBetween_above (t : Template) (h : ∀ s, outer ≠ [.script s]) :
    (t.moved n).readBetween (above n base outer) c = (t.readBetween outer c).over n base := by
  unfold Template.readBetween
  refine Scanned.ite_over (fun _ => rfl) fun _ => ?_
  refine Scanned.ite_over (fun _ => leave_above n base t.found h) fun _ => ?_
  exact Scanned.ite_over (fun _ => rfl) fun _ => rfl

theorem Template.read_above (t : Template) (part : Template.Part) (h : ∀ s, outer ≠ [.script s]) :
    (t.moved n).read (above n base outer) c part = (t.read outer c part).over n base := by
  cases part with
  | between => exact Template.readBetween_above t h
  | escaped => rfl
  | dollar => exact Scanned.ite_over (fun _ => rfl) fun _ => Template.readBetween_above t h

/-! ### Reading a character of a script -/

theorem Script.readClosing_above (c : Char) (base : List Context) (s : Script)
    (ahead : here.Ahead n here') (h : outer ≠ []) :
    (s.moved n).readClosing (above n base outer) here c =
      (s.readClosing outer here' c).over n base := by
  obtain ⟨due, previous, found⟩ := s
  unfold Script.readClosing
  rw [ahead.offset_eq]
  cases due with
  | nil =>
    refine Scanned.ite_over (fun _ => ?_) fun _ => rfl
    exact leaveBraces_above _ ahead h
  | cons d due =>
    refine Scanned.ite_over (fun _ => ?_) fun _ => rfl
    exact Script.goOn_above n base ⟨due, _, found⟩ .between h

theorem Script.readBetween_above (s : Script) (ahead : here.Ahead n here') (h : outer ≠ []) :
    (s.moved n).readBetween (above n base outer) here c =
      (s.readBetween outer here' c).over n base := by
  have hclosing := Script.readClosing_above c base s ahead h
  unfold Script.readBetween
  rw [ahead.offset_eq]
  refine Scanned.ite_over (fun _ => Script.goOn_above n base s (.string ..) h) fun _ => ?_
  refine Scanned.ite_over (fun _ => rfl) fun _ => ?_
  refine Scanned.ite_over (fun _ => Script.goOn_above n base s (.slash _) h) fun _ => ?_
  refine Scanned.ite_over (fun _ => Script.goOn_above n base s (.angle _) h) fun _ => ?_
  refine Scanned.ite_over (fun _ => hclosing) fun _ => ?_
  refine Scanned.ite_over (fun _ => Script.goOn_above n base s .between h) fun _ => ?_
  refine Scanned.ite_over (fun _ => Script.goOn_above n base s (.word _) h) fun _ => ?_
  cases closing? c with
  | none => exact Script.goOn_above n base { s with previous := _ } .between h
  | some d => exact Script.goOn_above n base ⟨d :: s.due, _, s.found⟩ .between h

theorem Script.readString_above (s : Script) (quote : Char) (start : Nat) (escaped : Bool)
    (h : outer ≠ []) :
    (s.moved n).readString (above n base outer) quote (start + n) escaped c =
      (s.readString outer quote start escaped c).over n base := by
  unfold Script.readString
  refine Scanned.ite_over (fun _ => Script.goOn_above n base s (.string ..) h) fun _ => ?_
  refine Scanned.ite_over (fun _ => Script.goOn_above n base s (.string ..) h) fun _ => ?_
  refine Scanned.ite_over (fun _ => rfl) fun _ => ?_
  refine Scanned.ite_over (fun _ => ?_) fun _ => Script.goOn_above n base s (.string ..) h
  have hgoOn := Script.goOn_above n base (s.afterValue []) .between h
  rw [← Script.afterValue_moved] at hgoOn
  exact hgoOn

theorem Script.readPattern_above (s : Script) (start : Nat) (inClass escaped : Bool)
    (h : outer ≠ []) :
    (s.moved n).readPattern (above n base outer) (start + n) inClass escaped c =
      (s.readPattern outer start inClass escaped c).over n base := by
  have hpattern (inClass escaped : Bool) :=
    Script.goOn_above n base s (.pattern start inClass escaped) h
  unfold Script.readPattern
  refine Scanned.ite_over (fun _ => hpattern ..) fun _ => ?_
  refine Scanned.ite_over (fun _ => hpattern ..) fun _ => ?_
  refine Scanned.ite_over (fun _ => hpattern ..) fun _ => ?_
  refine Scanned.ite_over (fun _ => hpattern ..) fun _ => ?_
  refine Scanned.ite_over (fun _ => ?_) fun _ => ?_
  · have hgoOn := Script.goOn_above n base (s.afterValue []) .flags h
    rw [← Script.afterValue_moved] at hgoOn
    exact hgoOn
  · exact Scanned.ite_over (fun _ => rfl) fun _ => hpattern ..

theorem Script.read_above (s : Script) (part : Script.Part) (ahead : here.Ahead n here')
    (h : outer ≠ []) :
    (s.moved n).read (above n base outer) here c (part.moved n) =
      (s.read outer here' c part).over n base := by
  cases part with
  | between => exact Script.readBetween_above s ahead h
  | word start =>
    refine Scanned.ite_over (fun _ => Script.goOn_above n base s (.word start) h) fun _ => ?_
    rw [ahead.since_eq]
    exact Script.readBetween_above (s.afterWord _) ahead h
  | string quote start escaped => exact Script.readString_above s quote start escaped h
  | slash start =>
    refine Scanned.ite_over (fun _ => Script.goOn_above n base s .lineComment h) fun _ => ?_
    refine Scanned.ite_over (fun _ => Script.goOn_above n base s (.blockComment ..) h) fun _ => ?_
    refine Scanned.ite_over (fun _ => Script.readPattern_above s start false false h) fun _ => ?_
    exact Script.readBetween_above { s with previous := _ } ahead h
  | lineComment =>
    simp only [Script.Part.moved, Script.read]
    split
    · exact Script.goOn_above n base s .between h
    · exact Script.goOn_above n base s .lineComment h
  | blockComment start starred =>
    refine Scanned.ite_over (fun _ => Script.goOn_above n base s .between h) fun _ => ?_
    exact Script.goOn_above n base s (.blockComment ..) h
  | pattern start inClass escaped => exact Script.readPattern_above s start inClass escaped h
  | flags =>
    refine Scanned.ite_over (fun _ => Script.goOn_above n base s .flags h) fun _ => ?_
    exact Script.readBetween_above s ahead h
  | angle start =>
    refine Scanned.ite_over (fun _ => ?_) fun _ => ?_
    · exact OpenTag.read_above (.script s :: outer) { start } .name ahead (by simp [h])
    · exact Script.readBetween_above { s with previous := _ } ahead h

/-! ### Reading a character -/

/-- A character does the same above other contexts, `n` bytes further on. -/
theorem Situation.read_above (base : List Context) (c : Char) {s : Situation}
    (h : s.lowest? = some place) (ahead : here.Ahead n here') :
    (s.above n base).read here c = (s.read here' c).over n base := by
  obtain ⟨focus, outer⟩ := s
  have hscript (script : Script) : outer ≠ [.script script] := by
    rintro rfl
    cases h
  cases focus with
  | script s part =>
    refine Script.read_above s part ahead ?_
    rintro rfl
    cases h
  | template t part => exact Template.read_above t part hscript
  | tag t part => exact OpenTag.read_above outer t part ahead hscript
  | content e part => exact OpenElement.read_above e part ahead hscript

end Mockup.Jsx
