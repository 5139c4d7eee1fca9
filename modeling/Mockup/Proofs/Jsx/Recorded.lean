import Mockup.Proofs.Jsx.AttributeEdit

/-!
# What a scan does not take back

A situation records the elements that were begun, in document order, each with its place and with
its attributes so far. A move adds records at the end and attributes to records, and takes nothing
back; so the elements of a text begin with those that were begun in a part of it.

## Main results

* `Move.grows`: a move keeps all that is recorded.
* `grows_of_scan`: what is recorded after a part of a text is found in the whole text.
* `exists_attribute?_of_overwrite`: a value that is written in the place of another one is read,
  whatever follows it.
-/

namespace Mockup.Jsx

/-! ### Records -/

/-- What is recorded of an element while it is read. -/
structure Record where
  /-- The place of its opening tag. -/
  start : Nat
  /-- Its attributes so far. -/
  attributes : List Attribute

/-- The record of an element that was read. -/
def Element.record (e : Element) : Record := ⟨e.start, e.attributes⟩

/-- The records of several elements and of all inside them. -/
def records (es : List Element) : List Record :=
  (Element.walkAll es).map Element.record

/-- The records of an opening tag and of the elements in it. -/
def OpenTag.records (t : OpenTag) : List Record :=
  ⟨t.start, t.attributes⟩ :: Jsx.records t.found

/-- The records of what waits. -/
def Context.records : Context → List Record
  | .script s => Jsx.records s.found
  | .template t => Jsx.records t.found
  | .tag t _ => t.records
  | .content e => e.tag.records

/-- The records of what is being read. -/
def Focus.records : Focus → List Record
  | .script s _ => Jsx.records s.found
  | .template t _ => Jsx.records t.found
  | .tag t _ => t.records
  | .content e _ => e.tag.records

/-- The records of all that waits, the outermost first. -/
def recordsOfOuter : List Context → List Record
  | [] => []
  | c :: outer => recordsOfOuter outer ++ c.records

/-- The records of a situation, in document order. -/
def Situation.records (s : Situation) : List Record :=
  recordsOfOuter s.outer ++ s.focus.records

@[simp]
theorem records_nil : records [] = [] := by
  simp [records]

@[simp]
theorem records_append (es fs : List Element) : records (es ++ fs) = records es ++ records fs := by
  simp [records]

/-- An element has the records of its opening tag. -/
@[simp]
theorem records_element (t : OpenTag) (openEnd stop : Nat) (selfClosing : Bool) :
    records [t.element openEnd stop selfClosing] = t.records := by
  simp [records, OpenTag.records, OpenTag.element, Element.record]

@[simp]
theorem OpenTag.records_add (t : OpenTag) (es : List Element) :
    (t.add es).records = t.records ++ Jsx.records es := by
  simp [OpenTag.records, OpenTag.add]

@[simp]
theorem OpenTag.records_named (t : OpenTag) (here : Cursor) : (t.named here).records = t.records :=
  rfl

/-! ### Growth -/

/-- Later records go on from earlier ones: each record keeps its position and its attributes. -/
def Grows (rs rs' : List Record) : Prop :=
  ∀ (i start : Nat) (attributes : List Attribute), rs[i]? = some ⟨start, attributes⟩ →
    ∃ more, rs'[i]? = some ⟨start, attributes ++ more⟩

namespace Grows

variable {as bs cs : List Record}

theorem refl (as : List Record) : Grows as as :=
  fun _ _ _ h => ⟨[], by simpa using h⟩

theorem trans (h : Grows as bs) (h' : Grows bs cs) : Grows as cs := by
  intro i start attributes hi
  obtain ⟨more, hmore⟩ := h i start attributes hi
  obtain ⟨further, hfurther⟩ := h' i start _ hmore
  exact ⟨more ++ further, by rw [hfurther, List.append_assoc]⟩

/-- Further records may follow. -/
theorem append_right (as more : List Record) : Grows as (as ++ more) := by
  intro i start attributes hi
  obtain ⟨hlt, -⟩ := List.getElem?_eq_some_iff.1 hi
  refine ⟨[], ?_⟩
  rw [List.getElem?_append_left hlt, hi, List.append_nil]

/-- Earlier records change nothing. -/
theorem append_left (h : Grows as bs) (cs : List Record) : Grows (cs ++ as) (cs ++ bs) := by
  intro i start attributes hi
  by_cases hlt : i < cs.length
  · rw [List.getElem?_append_left hlt] at hi
    refine ⟨[], ?_⟩
    rw [List.getElem?_append_left hlt, hi, List.append_nil]
  · rw [List.getElem?_append_right (by omega)] at hi ⊢
    exact h _ start attributes hi

/-- An opening tag may get a further attribute. -/
theorem addAttribute (t : OpenTag) (a : OpenAttribute) (stop : Nat) (value : Option Value) :
    Grows t.records (t.addAttribute a stop value).records := by
  intro i start attributes hi
  cases i with
  | zero =>
    obtain ⟨rfl, rfl⟩ : t.start = start ∧ t.attributes = attributes := by
      simpa [OpenTag.records] using hi
    exact ⟨[⟨a.name, a.start, stop, value⟩], rfl⟩
  | succ i => exact ⟨[], by simpa [OpenTag.records, OpenTag.addAttribute] using hi⟩

end Grows

/-! ### Moves -/

section Move

variable {here : Cursor} {c : Char} {t : OpenTag} {outer : List Context} {s s' : Situation}

theorem OpenTag.Next.records_eq (h : t.Next outer here c s) :
    s.records = recordsOfOuter outer ++ t.records := by
  cases h with
  | braces => simp [Situation.records, recordsOfOuter, Context.records, Focus.records]
  | _ => rfl

theorem OpenTag.NextInName.records_eq (h : t.NextInName outer here c s) :
    s.records = recordsOfOuter outer ++ t.records := by
  cases h with
  | more => rfl
  | done _ next => rw [next.records_eq, OpenTag.records_named]

theorem OpenTag.NextAfterName.grows {a : OpenAttribute} {stop : Nat}
    (h : t.NextAfterName a stop outer here c s) :
    Grows (recordsOfOuter outer ++ t.records) s.records := by
  cases h with
  | blank | equals => exact .refl _
  | commit _ _ next =>
    rw [next.records_eq]
    exact .append_left (.addAttribute _ _ _ _) _

theorem Left.records_eq {inner : List Element} (h : Left inner outer s) :
    s.records = recordsOfOuter outer ++ records inner := by
  cases h <;>
    simp [Situation.records, recordsOfOuter, Context.records, Focus.records, Script.afterValue,
      OpenElement.add]

theorem LeftBraces.grows {script : Script} (h : LeftBraces here script outer s) :
    Grows (recordsOfOuter outer ++ records script.found) s.records := by
  cases h with
  | template | tag | content =>
    simp only [Situation.records, recordsOfOuter, Context.records, Focus.records, OpenElement.add,
      records_append, OpenTag.records_add, List.append_assoc]
    exact .refl _
  | value t a start outer =>
    have hadd : recordsOfOuter (.tag t (some (a, start)) :: outer) ++ records script.found =
        recordsOfOuter outer ++ (t.add script.found).records := by
      simp [recordsOfOuter, Context.records]
    rw [hadd]
    exact .append_left (.addAttribute _ _ _ _) _

/-- A move keeps all that is recorded. -/
theorem Move.grows (m : Move here c s s') : Grows s.records s'.records := by
  cases m with
  | script found =>
    simp only [Situation.records, Focus.records, found]
    exact .refl _
  | enterTemplate found =>
    simp only [Situation.records, recordsOfOuter, Context.records, Focus.records, found,
      records_nil, List.append_nil]
    exact .refl _
  | leaveBraces _ found left =>
    simp only [Situation.records, Focus.records, ← found]
    exact left.grows
  | scriptElement _ next | contentElement _ next =>
    -- An element begins, and its record is the last one.
    rw [next.records_eq]
    exact .append_right _ _
  | template | «attribute» | equals | quote | quoted | content => exact .refl _
  | enterSubstitution | enterValue | enterBraces =>
    simp only [Situation.records, recordsOfOuter, Context.records, Focus.records, records_nil,
      List.append_nil]
    exact .refl _
  | leaveTemplate left =>
    rw [left.records_eq]
    exact .refl _
  | name next =>
    rw [next.records_eq]
    exact .refl _
  | tag next =>
    rw [next.records_eq]
    exact .refl _
  | selfClose _ left | close _ left =>
    rw [left.records_eq, records_element]
    exact .refl _
  | attributeName _ next => exact next.grows
  | gap next => exact next.grows
  | unquote => exact .append_left (.addAttribute _ _ _ _) _

end Move

/-! ### Texts -/

/-- A text that is read keeps all that is recorded. -/
theorem Situation.Reads.grows {s t : Situation} {here : Cursor} {cs : List Char}
    (h : s.Reads here cs t) : Grows s.records t.records := by
  induction cs generalizing s here with
  | nil =>
    obtain rfl := h.unique (.nil _ _)
    exact .refl _
  | cons c cs ih =>
    obtain ⟨m, hm, hrest⟩ := h.of_cons
    exact (Move.of_read hm).grows.trans (ih hrest)

/-- What is recorded after a part of a text is found in the whole text. -/
theorem grows_of_scan {before rest : List Char} {s : Situation} {es : List Element}
    (reached : Reached before s) (h : scan (before ++ rest) = .ok es) :
    Grows s.records (records es) := by
  obtain ⟨here, script, part, hrun, -, -, rfl⟩ := scan_eq_ok_iff.1 h
  obtain ⟨hreads, -⟩ := Situation.reads_of_run hrun
  obtain ⟨m, hm, hrest⟩ := hreads.of_append
  obtain rfl := reached.unique hm
  exact hrest.grows

/-- The opening tag that is being read belongs to an element that is found at the same position,
whatever follows. -/
theorem exists_of_reached {before rest : List Char} {t : OpenTag} {part : OpenTag.Part}
    {outer : List Context} {es : List Element} (reached : Reached before ⟨.tag t part, outer⟩)
    (h : scan (before ++ rest) = .ok es) :
    ∃ e more, (Element.walkAll es)[(recordsOfOuter outer).length]? = some e ∧ e.start = t.start ∧
      e.attributes = t.attributes ++ more := by
  have hrecord : Situation.records ⟨.tag t part, outer⟩ =
      recordsOfOuter outer ++ ⟨t.start, t.attributes⟩ :: records t.found := rfl
  obtain ⟨more, hmore⟩ := grows_of_scan reached h (recordsOfOuter outer).length t.start t.attributes
    (by rw [hrecord, List.getElem?_append_right (Nat.le_refl _), Nat.sub_self]; rfl)
  rw [records, List.getElem?_map, Option.map_eq_some_iff] at hmore
  obtain ⟨e, he, hrecord⟩ := hmore
  cases e
  cases hrecord
  exact ⟨_, more, he, rfl, rfl⟩

/-- A value that is written in the place of that of an attribute is read as the value of the
attribute, whatever follows it. -/
theorem exists_attribute?_of_overwrite {source text rest : List Char} {name : String}
    {a : Attribute}
    {value : Value} {e : Element} {es es' : List Element} (h : scan source = .ok es)
    (he : e ∈ Element.walkAll es) (ha : e.attribute? name = some a) (hvalue : Writes text value)
    (h' : scan (Text.takeBytes a.start source ++ (name.toList ++ '=' :: text) ++ rest) = .ok es') :
    ∃ (i : Nat) (e' : Element), (Element.walkAll es)[i]? = some e ∧
      (Element.walkAll es')[i]? = some e' ∧
      (e'.attribute? name).bind Attribute.value = some value := by
  obtain ⟨rfl, front, back, hattributes, hfront⟩ := Element.attribute?_eq_some_iff.1 ha
  obtain ⟨inside, t, outer, hstart, rfl, ⟨before, more, rfl, reached, hname⟩, -⟩ :=
    (headed_of_scan h e he).attributeRead front a back hattributes
  -- Up to the equals sign the two texts agree.
  have hbefore := takeBytes_of_reached reached hname more
  rw [← List.append_assoc, hbefore, List.append_assoc] at h'
  have reached' := reached.append (hvalue.reads_value hname)
  rw [← List.append_assoc] at h'
  obtain ⟨f, -, hf, hfstart, -⟩ := exists_of_reached reached h
  obtain ⟨e', others, he', -, hattributes'⟩ := exists_of_reached reached' h'
  refine ⟨_, e', ?_, he', ?_⟩
  · rw [hf]
    have forest := forest_of_scan h
    rw [forest.eq_of_start_eq (List.mem_of_getElem? hf) he (hfstart.trans hstart)]
  · rw [OpenTag.addAttribute, List.append_assoc] at hattributes'
    rw [Element.attribute?_eq_some_iff.2 ⟨String.ofList_toList, _, _, hattributes', hfront⟩]
    rfl

/-- An attribute that stands in the text with a value has that value. -/
theorem value_of_slice {source text rest : List Char} {name : String} {a : Attribute}
    {value : Value} {e : Element} {es : List Element} (h : scan source = .ok es)
    (he : e ∈ Element.walkAll es) (ha : e.attribute? name = some a) (hvalue : Writes text value)
    (hslice : Text.slice a.start a.stop source = name.toList ++ '=' :: text ++ rest) :
    a.value = some value := by
  have forest := forest_of_scan h
  have placed := (forest.2 e he).placed
  have hmem : a ∈ e.attributes := List.mem_of_find?_eq_some ha
  obtain ⟨hstart, hstop⟩ := placed.isBoundary_attribute a hmem
  obtain ⟨front, back, hsource, hfront, -⟩ :=
    hstart.exists_slice hstop (Nat.le_of_lt (placed.attribute_bounds a hmem).2.1)
  -- The text is that of the attribute with its value written once more.
  have hsame : source = Text.takeBytes a.start source ++ (name.toList ++ '=' :: text) ++
      (rest ++ back) := by
    rw [hslice] at hsource
    rw [← hfront, hsource]
    simp
  have h' : scan (Text.takeBytes a.start source ++ (name.toList ++ '=' :: text) ++
      (rest ++ back)) = .ok es := hsame ▸ h
  obtain ⟨i, e', hi, hi', hread⟩ := exists_attribute?_of_overwrite h he ha hvalue h'
  obtain rfl : e = e' := Option.some.inj (hi.symm.trans hi')
  rwa [ha] at hread

end Mockup.Jsx
