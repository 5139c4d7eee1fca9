import Mockup.Proofs.Jsx.Carried
import Mockup.Proofs.Jsx.Origin
import Mockup.Proofs.Jsx.Replay
import Mockup.Proofs.Text.Slice

/-!
# Writing an attribute into a text

The value of an attribute is overwritten, or an attribute is put after the last one. Up to the edit
the scan of the edited text is that of the old one; the written attribute is read by itself; and
after it the rest is read as before. `AttributeWritten` gathers what then holds of the old elements,
of the new ones and of the edited one among them.

## Main results

* `Kept.of_partEnd`: after the end of a part, the rest of the text is read as before.
* `exists_kept_of_overwrite`, `exists_kept_of_insert`: what an overwritten value and a further
  attribute keep.
* `exists_written_of_overwrite`, `exists_written_of_insert`: the attribute is written.
* `AttributeWritten.survives`: the entries of the elements survive.
-/

namespace Mockup.Jsx

variable {d : Splice} {source before rest : List Char} {t : OpenTag} {outer : List Context}
  {es : List Element}

/-! ### What stands before an edit -/

/-- A tag without elements after the edit, which is not the edited one, is kept as it is. -/
theorem OpenTag.Sound.kept {limit place : Nat} (h : t.Sound source limit place)
    (hlimit : limit ≤ d.start) (hplace : place ≤ d.owner) : t.Kept d t := by
  have hname := h.nameEnd_eq
  have hattributes := h.attributes.1.le
  have hfound := h.found.1.le
  have howner := d.owner_lt
  exact {
    name := rfl
    start := .inl ⟨by omega, rfl⟩
    nameEnd := .before (by omega)
    attributes := .refl h.attributes.1 hlimit (Splice.addedTo_of_ne (by omega))
    found := .refl h.found (by omega) (.inr hplace) (.inl (by omega)) }

/-- What waits for something that begins before the edited tag, or with it, is kept as it is. -/
theorem Stacked.kept {place : Nat} (h : Stacked source place outer) (hplace : place ≤ d.owner) :
    List.Forall₂ (Context.Kept d) outer outer := by
  have howner := d.owner_lt
  induction h with
  | nil => exact .nil
  | script found _ ih =>
    have hle := found.1.le
    have hfound := Kept.refl (d := d) found (by omega) (.inr hplace) (.inl (by omega))
    exact .cons (.script ⟨rfl, rfl, hfound⟩) (ih (by omega))
  | template found _ ih =>
    have hle := found.1.le
    have hfound := Kept.refl (d := d) found (by omega) (.inr hplace) (.inl (by omega))
    exact .cons (.template hfound) (ih (by omega))
  | tag tag limit_le _ _ ih =>
    have hle := tag.found.1.le
    exact .cons (.tag (tag.kept (by omega) (by omega))) (ih (by omega))
  | @value _ _ _ _ a _ tag value _ _ ih =>
    have hle := tag.found.1.le
    have hlimit := value.limit_le
    have hstart := value.2.1
    -- The attribute begins before the edited tag, so it is not the one that is overwritten.
    have ha : a.Kept d a :=
      { name := rfl, start := .before (by omega), notWritten := fun _ heq => by omega }
    exact .cons (.value (tag.kept (by omega) (by omega)) ha (.inr (by omega))) (ih (by omega))
  | content element _ _ ih =>
    have hle := element.tag.found.1.le
    have hopen := element.openEnd_le
    have htag := element.tag.kept (d := d) (by omega) hplace
    exact .cons (.content ⟨htag, .before (by omega)⟩) (ih (by omega))

/-! ### What stands after an edit -/

/-- Two texts and what follows them both move alike. -/
theorem Cursor.Kept.of_lengths {before before' : List Char} (h : Text.byteLength before = d.stop)
    (h' : Text.byteLength before' = d.newStop) :
    Cursor.Kept d (Cursor.start.after before) (Cursor.start.after before') :=
  ⟨before, before', [], by simp, by simp, h, h'⟩

theorem Cursor.Kept.afterText {here here' : Cursor} (h : here.Kept d here') (cs : List Char) :
    (here.after cs).Kept d (here'.after cs) := by
  induction cs generalizing here here' with
  | nil => exact h
  | cons c cs ih => exact ih (h.advance c)

/-- A blank between two parts of a tag changes nothing. -/
theorem reads_blanks {gap : List Char} {here : Cursor}
    (h : ∀ b ∈ gap, Text.isAsciiBlank b = true) :
    Situation.Reads ⟨.tag t .between, outer⟩ here gap ⟨.tag t .between, outer⟩ := by
  refine .repeated fun b hb there => ?_
  simp [Situation.read, OpenTag.read, OpenTag.readBetween, OpenTag.goOn, h b hb]

/-- What follows a part is read alike after a part that the edit keeps. -/
theorem Situation.Clears.reads {s u : Situation} {here here' : Cursor} {t' : OpenTag}
    {outer' : List Context} (h : s.Clears here t outer rest) (hhere : here.Kept d here')
    (ht : t.Kept d t') (waiting : List.Forall₂ (Context.Kept d) outer outer')
    (hread : s.Reads here rest u) :
    ∃ u', Situation.Reads ⟨.tag t' .between, outer'⟩ here' rest u' ∧ u.Kept d u' := by
  rcases h with rfl | ⟨gap, c, more, m, rfl, hblank, hgap, hc⟩
  · exact Situation.Kept.reads (.tag ht .between waiting) hhere hread
  · obtain ⟨n, hn, hmore⟩ := hread.of_append
    obtain rfl := hgap.unique hn
    obtain ⟨x, hx, hlast⟩ := hmore.of_cons
    have hthere := hhere.afterText gap
    rw [hc] at hx
    obtain ⟨x', hx', hkept⟩ := kept_readBetweenTag hthere ht waiting x hx
    obtain ⟨u', hu', hkept'⟩ := hkept.reads (hthere.advance c) hlast
    exact ⟨u', (reads_blanks hblank).append (.cons hx' hu'), hkept'⟩

/-- The rest of a text is scanned after another beginning if what it leads to from there is kept. -/
theorem exists_kept_of_rest {s s' : Situation} {before' : List Char} (reached : Reached before s)
    (reached' : Reached before' s')
    (hrest : ∀ u, s.Reads (Cursor.start.after before) rest u →
      ∃ u', s'.Reads (Cursor.start.after before') rest u' ∧ u.Kept d u')
    (h : scan (before ++ rest) = .ok es) :
    ∃ es', scan (before' ++ rest) = .ok es' ∧ Kept d es es' := by
  obtain ⟨here, script, part, hrun, hfinish⟩ := scan_eq_ok_iff.1 h
  obtain ⟨hreads, -⟩ := Situation.reads_of_run hrun
  obtain ⟨m, hm, hread⟩ := hreads.of_append
  obtain rfl := reached.unique hm
  obtain ⟨u', hu', hkept⟩ := hrest _ hread
  have hlast : Scan.finish ⟨here, .script script part, []⟩ = .ok es :=
    Scan.finish_eq_ok_iff.2 ⟨script, part, rfl, hfinish⟩
  obtain ⟨es', hes', hkept⟩ := hkept.finish hlast
  exact ⟨es', scan_eq_of_reads (reached'.append hu') hes', hkept⟩

/-- After the end of a part, the rest of the text is read as before. -/
theorem Kept.of_partEnd {s : Situation} {before' : List Char} {t' : OpenTag}
    {outer' : List Context} (hend : PartEnd before rest s t outer)
    (reached : Reached before' ⟨.tag t' .between, outer'⟩)
    (hlen : Text.byteLength before = d.stop) (hlen' : Text.byteLength before' = d.newStop)
    (ht : t.Kept d t') (waiting : List.Forall₂ (Context.Kept d) outer outer')
    (h : scan (before ++ rest) = .ok es) :
    ∃ es', scan (before' ++ rest) = .ok es' ∧ Kept d es es' := by
  have hhere := Cursor.Kept.of_lengths hlen hlen'
  exact exists_kept_of_rest hend.reached reached
    (fun _ hread => hend.clears.reads hhere ht waiting hread) h

/-! ### Edits -/

/-- What was read up to the end of the name of an attribute is the text before the attribute and the
name. -/
theorem takeBytes_of_reached {a : OpenAttribute}
    (h : Reached before ⟨.tag t (.attribute a.start), outer⟩)
    (hname : (Cursor.start.after before).since a.start = a.name.toList) (rest : List Char) :
    Text.takeBytes a.start (before ++ rest) ++ a.name.toList = before := by
  cases h.sound with
  | tag _ pending =>
    obtain ⟨-, -, front, word, hbefore, hfront⟩ := pending
    have hfront : a.start = Text.byteLength front := hfront
    rw [Cursor.passed_after_start] at hbefore
    have hword : word = a.name.toList := by
      rw [← hname, hfront]
      exact (Cursor.since_eq (by rw [Cursor.passed_after_start, hbefore])).symm
    rw [← hword, hbefore, hfront, List.append_assoc, Text.takeBytes_append]

/-- The value of an attribute is overwritten, and the elements inside it are gone. -/
theorem OpenTag.Sound.kept_overwritten {limit place : Nat} {a : Attribute} {value : Value}
    {inside : List Element} (h : t.Sound source limit limit) (hlimit : limit ≤ a.start)
    (hlt : a.start < a.stop) (hinside : ∀ e ∈ inside, d.drops e = true)
    (hnone : d.inserted = []) (hstart : d.start = a.start)
    (hstop : d.stop = a.stop) (howner : d.owner = t.start) (hvalue : d.value = some value)
    (hadded : d.added = none) (hplace : d.newStop = place) :
    ((t.add inside).addAttribute ⟨a.name, a.start⟩ a.stop a.value).Kept d
      (t.addAttribute ⟨a.name, a.start⟩ place (some value)) := by
  have hname := h.nameEnd_eq
  have hattributes := h.attributes.1.le
  have hfound : Jsx.Kept d t.found t.found :=
    .refl h.found (by omega) (.inl (by omega)) (.inr hnone)
  have hmoved : d.After a.stop place := ⟨by omega, by omega⟩
  have hover : d.Overwrites t.start a := ⟨by omega, howner.symm, hstart.symm⟩
  -- The attribute is the one that the edit overwrites, so its value is the new one.
  have hattribute : AttributeKept d t.start ⟨a.name, a.start, a.stop, a.value⟩
      ⟨a.name, a.start, place, some value⟩ :=
    { name := rfl
      start := .before (show a.start ≤ d.start by omega)
      stop := hmoved.moved
      value := fun _ hnot => absurd hover hnot
      written := fun _ => hvalue.symm }
  exact {
    name := rfl
    start := .inl ⟨Nat.le_of_eq howner.symm, rfl⟩
    nameEnd := .before (show t.nameEnd ≤ d.start by omega)
    attributes := by
      have hnone : d.addedTo t.start = [] := by simp [Splice.addedTo, hadded]
      exact (AttributesKept.refl h.attributes.1 (by omega) hnone).concat hattribute
    found := by simpa [OpenTag.addAttribute, OpenTag.add] using hfound.append (.dropped hinside) }

/-- The value of an attribute is overwritten: the elements of the text are kept, but for those in
the old value. -/
theorem exists_kept_of_overwrite {start : Nat} {front : List Attribute} {a : Attribute}
    {inside : List Element} {text : List Char} {value : Value} {drops : Element → Bool}
    (hread : AttributeRead source start front a inside) (hlt : a.start < a.stop)
    (hinside : ∀ e ∈ inside, drops e = true)
    (hwithin : ∀ e, drops e = true → a.start ≤ e.start ∧ e.stop ≤ a.stop)
    (hvalue : Writes text value) (h : scan source = .ok es) :
    ∃ (d : Splice) (es' : List Element), (d.start = a.start ∧ d.stop = a.stop ∧
      d.newStop = a.start + Text.byteLength (a.name.toList ++ '=' :: text) ∧
      d.owner = start ∧ d.value = some value ∧ d.added = none ∧ d.drops = drops ∧
      d.inserted = []) ∧
      scan (Text.takeBytes a.start source ++ (a.name.toList ++ '=' :: text) ++
        Text.dropBytes a.stop source) = .ok es' ∧ Kept d es es' := by
  obtain ⟨t, outer, rfl, rfl, ⟨before, rest, hsource, hreached, hname⟩, -, forest, ends⟩ := hread
  obtain ⟨through, rest', s, hsource', hlen, hend⟩ := ends
  cases hreached.sound with
  | @tag limit _ _ _ sound pending _ _ =>
    have hlimit : limit ≤ a.start := pending.1
    rw [Cursor.passed_after_start] at sound
    have howner : t.start < a.start := by
      have hnameEnd := sound.nameEnd_eq
      have hattributes := sound.attributes.1.le
      omega
    -- The name stays and the value is another one, so the edit belongs to the tag that is open.
    let d : Splice :=
      { start := a.start
        stop := a.stop
        newStop := Text.byteLength (before ++ '=' :: text)
        owner := t.start
        value := some value
        added := none
        drops
        owner_lt := howner
        start_le := forest.1.le
        drops_within := hwithin }
    have sound' : t.Sound source limit limit := by
      rw [hsource]
      exact sound.append_right rest
    have ht := sound'.kept_overwritten (d := d) hlimit hlt hinside rfl rfl rfl rfl rfl rfl rfl
    have hwaiting := hend.stacked.kept (d := d) (Nat.le_refl _)
    have hreads := hreached.append (hvalue.reads_value hname)
    rw [String.ofList_toList, ← Cursor.after_append, Cursor.offset_after_start] at hreads
    rw [hsource'] at h
    obtain ⟨es', hes', hkept⟩ := Kept.of_partEnd hend hreads hlen rfl ht hwaiting h
    have hfirst : Text.takeBytes a.start source ++ a.name.toList = before := by
      rw [hsource]
      exact takeBytes_of_reached hreached hname rest
    have hnewStop : d.newStop = a.start + Text.byteLength (a.name.toList ++ '=' :: text) := by
      have hboundary : Text.IsBoundary source a.start := by
        rw [hsource, ← Cursor.passed_after_start before]
        exact pending.2.2.append_right rest
      change Text.byteLength (before ++ '=' :: text) = _
      rw [← hfirst, List.append_assoc, Text.byteLength_append, hboundary.byteLength_takeBytes]
    refine ⟨d, es', ⟨rfl, rfl, hnewStop, rfl, rfl, rfl, rfl, rfl⟩, ?_, hkept⟩
    have hlast : Text.dropBytes a.stop source = rest' := by
      rw [hsource', ← hlen, Text.dropBytes_append]
    rw [hlast, ← List.append_assoc, hfirst]
    exact hes'

/-- An attribute is put after a part of an opening tag: the elements of the text are kept. -/
theorem exists_kept_of_insert {place : Nat} {name text : List Char} {value : Value}
    (ends : PartEnds source place t outer) (hne : name ≠ [])
    (hname : ∀ c ∈ name, isAttributeChar c = true) (hvalue : Writes text value)
    (h : scan source = .ok es) :
    ∃ (d : Splice) (es' : List Element), (d.start = place ∧ d.stop = place ∧
      d.newStop = place + Text.byteLength (' ' :: (name ++ '=' :: text)) ∧ d.owner = t.start ∧
      d.added = some ⟨String.ofList name, place + 1, d.newStop, some value⟩ ∧
      (d.drops = fun _ => false) ∧ d.inserted = []) ∧
      scan (Text.takeBytes place source ++ (' ' :: (name ++ '=' :: text)) ++
        Text.dropBytes place source) = .ok es' ∧ Kept d es es' := by
  obtain ⟨before, rest, s, rfl, rfl, hend⟩ := ends
  have hlt : t.start < Text.byteLength before := by
    have hnameEnd := hend.sound.nameEnd_eq
    have hattributes := hend.sound.attributes.1.le
    omega
  let stop := Text.byteLength (before ++ ' ' :: (name ++ '=' :: text))
  let added : Attribute :=
    ⟨String.ofList name, Text.byteLength before + 1, stop, some value⟩
  -- Nothing is replaced, and the attribute is added to the tag that is open at the place.
  let d : Splice :=
    { start := Text.byteLength before
      stop := Text.byteLength before
      newStop := stop
      owner := t.start
      value := none
      added := some added
      drops := fun _ => false
      owner_lt := hlt
      start_le := Nat.le_refl _
      drops_within := by simp }
  have hreads := hend.reached.append (hend.settles.reads_attribute hne hname hvalue)
  rw [← Cursor.after_append, Cursor.offset_after_start, Cursor.offset_after_start] at hreads
  have hattributes := hend.sound.attributes.1
  have ht : t.Kept d (t.addAttribute ⟨added.name, added.start⟩ stop (some value)) :=
    { name := rfl
      start := .inl ⟨Nat.le_refl _, rfl⟩
      nameEnd := .before hattributes.le
      attributes := .add hattributes (Nat.le_refl _) rfl
      found := .refl hend.sound.found (Nat.le_refl _) (.inl (Nat.lt_succ_self _)) (.inr rfl) }
  have hwaiting := hend.stacked.kept (d := d) (Nat.le_refl _)
  obtain ⟨es', hes', hkept⟩ := Kept.of_partEnd hend hreads rfl rfl ht hwaiting h
  refine ⟨d, es', ⟨rfl, rfl, Text.byteLength_append _ _, rfl, rfl, rfl, rfl⟩, ?_, hkept⟩
  rw [Text.takeBytes_append, Text.dropBytes_append]
  exact hes'

/-! ### The written attribute -/

section Written

variable {next : List Char} {es' : List Element} {e : Element} {a : Attribute} {name : String}
  {text cs : List Char} {value : Value}

/-- Two texts that are the same before and after an edit. -/
def Splice.Edits (d : Splice) (source next : List Char) : Prop :=
  ∃ front old new back, source = front ++ old ++ back ∧ next = front ++ new ++ back ∧
    Text.byteLength front = d.start ∧ Text.byteLength (front ++ old) = d.stop ∧
    Text.byteLength (front ++ new) = d.newStop

/-- A text is put in the place of another one. -/
theorem Splice.edits_of_isBoundary {start stop : Nat} {text : List Char} (hstart : d.start = start)
    (hstop : d.stop = stop) (hnew : d.newStop = start + Text.byteLength text)
    (hboundary : Text.IsBoundary source start) (hboundary' : Text.IsBoundary source stop) :
    d.Edits source (Text.takeBytes start source ++ text ++ Text.dropBytes stop source) := by
  obtain ⟨front, back, hsource, hnext, hfront, hold⟩ :=
    hboundary.exists_replace hboundary' (hstart ▸ hstop ▸ d.start_le) text
  refine ⟨front, _, text, back, hsource, hnext, hfront.trans hstart.symm, hold.trans hstop.symm, ?_⟩
  rw [Text.byteLength_append, hfront, hnew]

/-- The first attribute of an element with a name has a value, and stands in a source as the name,
an equals sign and a text. -/
def Element.Bears (source : List Char) (e : Element) (name : String) (text : List Char)
    (value : Value) : Prop :=
  ∃ a, e.attribute? name = some a ∧ a.value = some value ∧
    Text.slice a.start a.stop source = name.toList ++ '=' :: text

/-- An edit of a text writes an attribute of an element and keeps the elements of the text. -/
structure AttributeWritten (d : Splice) (source next : List Char) (es es' : List Element)
    (e : Element) (name : String) (text : List Char) (value : Value) : Prop where
  /-- The edited text is a component file. -/
  scanned : scan next = .ok es'
  edits : d.Edits source next
  owner : d.owner = e.start
  kept : Kept d es es'
  /-- No elements are inserted. -/
  inserted : d.inserted = []
  /-- What the edit keeps of the element bears the attribute. -/
  bears : ∀ e', ElementKept d e e' → e'.Bears next name text value
  others : ∀ e', ElementKept d e e' → List.Forall₂ (Attribute.Survives d.start d.stop)
    (e.otherAttributes name) (e'.otherAttributes name)

/-- An attribute that is overwritten is written. -/
theorem exists_written_of_overwrite {drops : Element → Bool} (h : scan source = .ok es)
    (he : e ∈ Element.walkAll es) (ha : e.attribute? name = some a)
    (hinside : ∀ front inside, AttributeRead source e.start front a inside →
      ∀ f ∈ inside, drops f = true)
    (hwithin : ∀ f, drops f = true → a.start ≤ f.start ∧ f.stop ≤ a.stop)
    (hvalue : Writes text value) :
    ∃ d es', d.start = a.start ∧ d.stop = a.stop ∧ d.drops = drops ∧
      AttributeWritten d source (Text.takeBytes a.start source ++ (name.toList ++ '=' :: text) ++
        Text.dropBytes a.stop source) es es' e name text value := by
  have sound := (forest_of_scan h).2 e he
  obtain ⟨hboundary, hboundary'⟩ :=
    sound.placed.isBoundary_attribute a (List.mem_of_find?_eq_some ha)
  have order := sound.attributes.1
  obtain ⟨rfl, front, back, hattributes, -⟩ := Element.attribute?_eq_some_iff.1 ha
  have hlt : a.start < a.stop := by
    refine (order.of_mem ?_).2.1
    rw [hattributes]
    exact List.mem_append_right front List.mem_cons_self
  obtain ⟨inside, hread⟩ := (headed_of_scan h e he).attributeRead front a back hattributes
  obtain ⟨d, es', ⟨hstart, hstop, hnewStop, howner, hwritten, hadded, rfl, hinserted⟩, hscan,
    hkept⟩ :=
    exists_kept_of_overwrite hread hlt (hinside front inside hread) hwithin hvalue h
  have hedits := Splice.edits_of_isBoundary hstart hstop hnewStop hboundary hboundary'
  have edited (e' : Element) (kept : ElementKept d e e') :=
    kept.overwritten howner.symm hadded (by omega) ha hstart.symm order
  refine ⟨d, es', hstart, hstop, rfl, hscan, hedits, howner, hkept, hinserted, fun e' kept => ?_,
    fun e' kept => (edited e' kept).2⟩
  obtain ⟨a', hfound, hkept', hvalue'⟩ := (edited e' kept).1
  -- The attribute begins where the edit begins and ends where it ends.
  have hstart' : a'.start = d.start := (hstart ▸ hkept'.start).start_eq (by omega)
  have hstop' : a'.stop = d.newStop := (hstop ▸ hkept'.stop).stop_eq (by omega)
  refine ⟨a', hfound, hvalue'.trans hwritten, ?_⟩
  have hat : Text.HasAt (Text.takeBytes a.start source ++ (a.name.toList ++ '=' :: text) ++
      Text.dropBytes a.stop source) a.start (a.name.toList ++ '=' :: text) :=
    ⟨_, _, rfl, hboundary.byteLength_takeBytes.symm⟩
  rw [hstart', hstop', hnewStop, hstart]
  exact hat.slice

/-- A new attribute goes into the opening tag, after the name. -/
theorem Element.Sound.insertPoint_bounds (h : e.Sound source) :
    e.nameEnd ≤ e.insertPoint ∧ e.insertPoint < e.openEnd ∧
      Text.IsBoundary source e.insertPoint := by
  have placed := h.placed
  unfold Element.insertPoint
  cases hlast : e.attributes.getLast? with
  | none =>
    have hle := h.attributes.1.le
    have hname := placed.start_lt
    exact ⟨Nat.le_refl _, show e.nameEnd < e.openEnd by omega, placed.isBoundary_nameEnd⟩
  | some a =>
    have hmem := List.mem_of_getLast? hlast
    obtain ⟨hstart, hlt, hstop⟩ := placed.attribute_bounds a hmem
    exact ⟨show e.nameEnd ≤ a.stop by omega, hstop, (placed.isBoundary_attribute a hmem).2⟩

/-- A new attribute goes somewhere after the start of its element. -/
theorem Element.Sound.start_lt_insertPoint (h : e.Sound source) : e.start < e.insertPoint :=
  Nat.lt_of_lt_of_le h.placed.start_lt h.insertPoint_bounds.1

/-- The place for a new attribute is the end of a part of the opening tag. -/
theorem exists_partEnds_insertPoint (h : scan source = .ok es) (he : e ∈ Element.walkAll es)
    (htag : e.tag ≠ "") : ∃ t outer, t.start = e.start ∧ PartEnds source e.insertPoint t outer := by
  have head := headed_of_scan h e he
  unfold Element.insertPoint
  rcases List.eq_nil_or_concat e.attributes with hnil | ⟨front, a, hconcat⟩
  · rw [hnil]
    obtain ⟨outer, ends⟩ := head.nameRead htag
    exact ⟨_, outer, rfl, ends⟩
  · rw [List.concat_eq_append] at hconcat
    obtain ⟨inside, t, outer, hstart, -, -, -, -, ends⟩ := head.attributeRead front a [] hconcat
    rw [hconcat, List.getLast?_concat]
    exact ⟨(t.add inside).addAttribute ⟨a.name, a.start⟩ a.stop a.value, outer, hstart, ends⟩

/-- A further attribute is written. -/
theorem exists_written_of_insert (h : scan source = .ok es) (he : e ∈ Element.walkAll es)
    (htag : e.tag ≠ "") (hnone : e.attribute? name = none) (hne : name.toList ≠ [])
    (hname : ∀ c ∈ name.toList, isAttributeChar c = true) (hvalue : Writes text value) :
    ∃ d es', d.start = e.insertPoint ∧ d.stop = e.insertPoint ∧ (d.drops = fun _ => false) ∧
      AttributeWritten d source (Text.takeBytes e.insertPoint source ++
        (' ' :: (name.toList ++ '=' :: text)) ++ Text.dropBytes e.insertPoint source) es es' e name
        text value := by
  obtain ⟨t, outer, htstart, ends⟩ := exists_partEnds_insertPoint h he htag
  obtain ⟨d, es', ⟨hstart, hstop, hnewStop, howner, hadded, hdrops, hinserted⟩, hscan, hkept⟩ :=
    exists_kept_of_insert ends hne hname hvalue h
  have hboundary : Text.IsBoundary source e.insertPoint := by
    obtain ⟨before, rest, -, hsource, hlen, -⟩ := ends
    exact ⟨before, rest, hsource, hlen.symm⟩
  have hedits := Splice.edits_of_isBoundary hstart hstop hnewStop hboundary hboundary
  have edited (e' : Element) (kept : ElementKept d e e') :=
    kept.added (howner.trans htstart).symm hadded String.ofList_toList (hstart.trans hstop.symm)
      hnone
  refine ⟨d, es', hstart, hstop, hdrops, hscan, hedits, howner.trans htstart, hkept, hinserted,
    fun e' kept => ⟨_, (edited e' kept).1, rfl, ?_⟩, fun e' kept => (edited e' kept).2⟩
  -- A space stands before the attribute.
  have hat : Text.HasAt (Text.takeBytes e.insertPoint source ++
      (' ' :: (name.toList ++ '=' :: text)) ++ Text.dropBytes e.insertPoint source)
      e.insertPoint ([' '] ++ (name.toList ++ '=' :: text)) :=
    ⟨_, _, rfl, hboundary.byteLength_takeBytes.symm⟩
  have hspace : Text.byteLength [' '] = 1 := rfl
  have hslice := hat.right.slice
  rw [hspace] at hslice
  show Text.slice (e.insertPoint + 1) d.newStop _ = _
  rw [hnewStop, ← List.singleton_append, Text.byteLength_append, hspace, ← Nat.add_assoc]
  exact hslice

/-! ### Entries -/

/-- Where an attribute is written, the entries of elements that are kept survive. -/
theorem AttributeWritten.survives (h : AttributeWritten d source next es es' e name text value)
    {lo hi : Nat} (forest : Forest source lo es hi) (he : e ∈ Element.walkAll es)
    (htext : value.text? = some cs) :
    List.Forall₂ (Element.Entry.Survives d.start d.stop e.start name cs)
      (Element.entriesOfAll none 0 (Element.allWithout d.drops es))
      (Element.entriesOfAll none 0 es') := by
  refine h.kept.survives h.inserted forest he h.owner fun e' kept => ⟨?_, h.others e' kept⟩
  obtain ⟨a, hfound, hvalue, -⟩ := h.bears e' kept
  rw [Element.textOf?, hfound, Option.bind_some, hvalue, Option.bind_some]
  exact htext

/-- An overwritten value: the entries survive, but for those of elements that are in the old one. -/
theorem exists_survives_of_overwrite {drops : Element → Bool}
    (h : scan source = .ok es) (he : e ∈ Element.walkAll es) (ha : e.attribute? name = some a)
    (hinside : ∀ front inside, AttributeRead source e.start front a inside →
      ∀ f ∈ inside, drops f = true)
    (hwithin : ∀ f, drops f = true → a.start ≤ f.start ∧ f.stop ≤ a.stop)
    (hvalue : Writes text value) (htext : value.text? = some cs) :
    ∃ es', scan (Text.takeBytes a.start source ++ (name.toList ++ '=' :: text) ++
        Text.dropBytes a.stop source) = .ok es' ∧
      List.Forall₂ (Element.Entry.Survives a.start a.stop e.start name cs)
        (Element.entriesOfAll none 0 (Element.allWithout drops es))
        (Element.entriesOfAll none 0 es') := by
  obtain ⟨d, es', hstart, hstop, rfl, written⟩ :=
    exists_written_of_overwrite h he ha hinside hwithin hvalue
  rw [← hstart, ← hstop] at written ⊢
  exact ⟨es', written.scanned, written.survives (forest_of_scan h) he htext⟩

/-- A further attribute: all entries survive. -/
theorem exists_survives_of_insert (h : scan source = .ok es) (he : e ∈ Element.walkAll es)
    (htag : e.tag ≠ "") (hnone : e.attribute? name = none) (hne : name.toList ≠ [])
    (hname : ∀ c ∈ name.toList, isAttributeChar c = true) (hvalue : Writes text value)
    (htext : value.text? = some cs) :
    ∃ es', scan (Text.takeBytes e.insertPoint source ++ (' ' :: (name.toList ++ '=' :: text)) ++
        Text.dropBytes e.insertPoint source) = .ok es' ∧
      List.Forall₂ (Element.Entry.Survives e.insertPoint e.insertPoint e.start name cs)
        (Element.entriesOfAll none 0 es) (Element.entriesOfAll none 0 es') := by
  obtain ⟨d, es', hstart, hstop, hdrops, written⟩ :=
    exists_written_of_insert h he htag hnone hne hname hvalue
  have hall : Element.allWithout d.drops es = es :=
    Element.allWithout_eq_self fun f _ => by rw [hdrops]
  have hsurvives := written.survives (forest_of_scan h) he htext
  rw [hall, hstart, hstop] at hsurvives
  exact ⟨es', written.scanned, hsurvives⟩

end Written

end Mockup.Jsx
