import Mockup.Jsx.View
import Mockup.Proofs.Jsx.Escape
import Mockup.Proofs.Jsx.Literal
import Mockup.Proofs.Jsx.Walk

/-!
# Reading written views

What is written for a list of views is read as elements that show those views: one element for each
element of a view, with its tag, its attributes and the elements inside it, and none for a text.

## Main results

* `Situation.Settles.reads_attributes`: written attributes are read back.
* `readsAsContent_charsOfAll`: written views are read as elements that show them.
-/

namespace Mockup.Jsx

/-! ### What is read back -/

/-- Whether a text is the name of an element: a letter and further characters of tags. -/
def isTagName : List Char → Bool
  | [] => false
  | c :: cs => c.isAlpha && cs.all isTagChar

/-- An attribute that can be read back: its name has characters of attribute names only, and code in
it is balanced. -/
structure View.Attribute.Readable (a : View.Attribute) : Prop where
  name_ne : a.name.toList ≠ []
  name : ∀ c ∈ a.name.toList, isAttributeChar c = true
  code : ∀ s, a.value = .code s → Balanced s.toList

mutual

/-- A view that can be read back. -/
def View.Readable : View → Prop
  | .text _ => True
  | .element tag attributes children =>
    isTagName tag.toList = true ∧ (∀ a ∈ attributes, a.Readable) ∧ View.ReadableAll children

/-- Views that can be read back. -/
def View.ReadableAll : List View → Prop
  | [] => True
  | v :: vs => v.Readable ∧ ReadableAll vs

end

/-- The value that an attribute of a view is read with. -/
def View.Attribute.scanned (a : View.Attribute) : Option Jsx.Value :=
  match a.value with
  | .flag => none
  | .text s => some (literalValue s.toList)
  | .code s => some (.braced s.toList)

/-- The name and the value of an attribute, without its place. -/
def Attribute.pair (a : Attribute) : String × Option Value :=
  (a.name, a.value)

/-- The name of an attribute of a view and the value that it is read with. -/
def View.Attribute.pair (a : View.Attribute) : String × Option Jsx.Value :=
  (a.name, a.scanned)

/-- Whether an element is written without a closing tag. -/
def View.closesItself (tag : String) (children : List View) : Bool :=
  voidTags.contains tag && children.isEmpty

/-- Elements show views: an element for each element of a view, in order, and none for a text. -/
inductive Shows : List View → List Element → Prop
  | nil : Shows [] []
  | text {s : String} {vs : List View} {es : List Element} (rest : Shows vs es) :
    Shows (.text s :: vs) es
  | element {tag : String} {attributes : List View.Attribute} {children vs : List View}
    {e : Element} {es : List Element} (htag : e.tag = tag)
    (hattributes : e.attributes.map Attribute.pair = attributes.map View.Attribute.pair)
    (inside : Shows children e.children) (rest : Shows vs es)
    (hclosing : e.selfClosing = View.closesItself tag children) :
    Shows (.element tag attributes children :: vs) (e :: es)

/-- What holds of no views, of a text before others and of an element before others when it holds of
what is inside it, holds of all lists of views. -/
theorem View.forest_induction {P : List View → Prop} (nil : P [])
    (text : ∀ s vs, P vs → P (.text s :: vs))
    (element : ∀ tag attributes children vs, P children → P vs →
      P (.element tag attributes children :: vs)) (vs : List View) : P vs :=
  @View.rec_1 (fun v => ∀ vs, P vs → P (v :: vs)) P
    (fun tag attributes children hin vs hvs => element tag attributes children vs hin hvs)
    (fun s vs hvs => text s vs hvs) nil (fun _ vs hv hvs => hv vs hvs) vs

/-- An attribute with a text can be read back if its name can. -/
theorem readable_ofText {name : String} (hne : name.toList ≠ [])
    (hname : ∀ c ∈ name.toList, isAttributeChar c = true) (s : String) :
    (View.Attribute.ofText name s).Readable :=
  ⟨hne, hname, by simp [View.Attribute.ofText]⟩

/-! ### Opening tags -/

theorem isTagChar_of_mem {tag : List Char} (h : isTagName tag = true) :
    ∀ c ∈ tag, isTagChar c = true := by
  cases tag with
  | nil => simp
  | cons c cs =>
    simp only [isTagName, Bool.and_eq_true, List.all_eq_true] at h
    intro d hd
    rcases List.mem_cons.1 hd with rfl | hd
    · simp [isTagChar, Char.isAlphanum, h.1]
    · exact h.2 d hd

theorem isTagChar_ne {c d : Char} (h : isTagChar c = true) (hd : isTagChar d = false) : c ≠ d := by
  rintro rfl
  simp [h] at hd

section OpenTag

variable {s m : Situation} {t : OpenTag} {outer : List Context} {here : Cursor}

/-- An angle bracket and a name open an element, where an angle bracket may open one. -/
theorem reads_tagName {tag : List Char} (hangle : s.read here '<' = .ok m)
    (hopen : ∀ there c, opensElement c = true →
      m.read there c = OpenTag.read { start := here.offset } outer there c .name)
    (htag : isTagName tag = true) :
    s.Reads here ('<' :: tag) ⟨.tag { start := here.offset } .name, outer⟩ := by
  cases tag with
  | nil => simp [isTagName] at htag
  | cons c cs =>
    have hchars := isTagChar_of_mem htag
    simp only [isTagName, Bool.and_eq_true] at htag
    have hc : opensElement c = true := by simp [opensElement, htag.1]
    refine .cons hangle (.cons ?_ (.repeated fun d hd there => ?_))
    · rw [hopen _ c hc]
      simp [OpenTag.read, OpenTag.goOn, hchars c List.mem_cons_self]
    · simp [Situation.read, OpenTag.read, OpenTag.goOn, hchars d (List.mem_cons_of_mem _ hd)]

/-- A further attribute, as it is written. -/
theorem Situation.Settles.reads_viewAttribute (h : s.Settles here t outer) {a : View.Attribute}
    (ha : a.Readable) : ∃ (m : Situation) (stop : Nat), s.Reads here (' ' :: a.chars) m ∧
      m.Settles (here.after (' ' :: a.chars))
        (t.addAttribute ⟨a.name, here.offset + 1⟩ stop a.scanned) outer := by
  have hname : String.ofList a.name.toList = a.name := String.ofList_toList
  have hsince : (here.after (' ' :: a.name.toList)).since (here.offset + 1) = a.name.toList :=
    Cursor.since_after_mark here (by decide) _
  have hread := h.reads_name ha.name_ne ha.name
  -- A flag is settled by what comes next; a value settles itself by its closing mark.
  cases hvalue : a.value with
  | flag =>
    have hsettles : Situation.Settles ⟨.tag t (.attribute (here.offset + 1)), outer⟩ _ _ _ :=
      settles_attribute hsince
    rw [hname] at hsettles
    simp only [View.Attribute.chars, View.Attribute.scanned, hvalue]
    exact ⟨_, _, hread, hsettles⟩
  | text s =>
    have hattribute := h.reads_attribute ha.name_ne ha.name (writes_literal s.toList)
    rw [hname] at hattribute
    simp only [View.Attribute.chars, View.Attribute.scanned, hvalue]
    exact ⟨_, _, hattribute, settles_between⟩
  | code s =>
    have hattribute := h.reads_attribute ha.name_ne ha.name (writes_braced (ha.code s hvalue))
    rw [hname] at hattribute
    simp only [View.Attribute.chars, View.Attribute.scanned, hvalue]
    exact ⟨_, _, by simpa using hattribute, settles_between⟩

/-- Written attributes are read back, in order. -/
theorem Situation.Settles.reads_attributes (h : s.Settles here t outer) {as : List View.Attribute}
    (has : ∀ a ∈ as, a.Readable) : ∃ (m : Situation) (attributes : List Attribute),
      s.Reads here (as.flatMap fun a => ' ' :: a.chars) m ∧
      m.Settles (here.after (as.flatMap fun a => ' ' :: a.chars))
        { t with attributes := t.attributes ++ attributes } outer ∧
      attributes.map Attribute.pair = as.map View.Attribute.pair := by
  induction as generalizing s t here with
  | nil => exact ⟨s, [], .nil s here, by simpa using h, rfl⟩
  | cons a as ih =>
    obtain ⟨m₁, stop, hm₁, hsettles⟩ := h.reads_viewAttribute (has a List.mem_cons_self)
    obtain ⟨m₂, attributes, hm₂, hsettles, hpairs⟩ :=
      ih hsettles fun b hb => has b (List.mem_cons_of_mem _ hb)
    refine ⟨m₂, ⟨a.name, here.offset + 1, stop, a.scanned⟩ :: attributes, ?_, ?_, ?_⟩
    · rw [List.flatMap_cons]
      exact hm₁.append hm₂
    · rw [List.flatMap_cons, Cursor.after_append]
      simpa [OpenTag.addAttribute] using hsettles
    · simp [Attribute.pair, View.Attribute.pair, hpairs]

/-- The inside of an opening tag, up to where the tag may end. -/
theorem reads_opening {tag : String} {as : List View.Attribute} (hangle : s.read here '<' = .ok m)
    (hopen : ∀ there c, opensElement c = true →
      m.read there c = OpenTag.read { start := here.offset } outer there c .name)
    (htag : isTagName tag.toList = true) (has : ∀ a ∈ as, a.Readable) :
    ∃ (u : Situation) (nameEnd : Nat) (attributes : List Attribute),
      s.Reads here ('<' :: View.opening tag as) u ∧
      u.Settles (here.after ('<' :: View.opening tag as))
        { start := here.offset, name := tag, nameEnd, attributes } outer ∧
      attributes.map Attribute.pair = as.map View.Attribute.pair := by
  have hname := reads_tagName hangle hopen htag
  have hsince : (here.after ('<' :: tag.toList)).since (here.offset + 1) = tag.toList :=
    Cursor.since_after_mark here (by decide) _
  have hsettles : Situation.Settles ⟨.tag { start := here.offset } .name, outer⟩ _ _ _ :=
    settles_name hsince
  rw [String.ofList_toList] at hsettles
  obtain ⟨u, attributes, hu, hsettles, hpairs⟩ := hsettles.reads_attributes has
  refine ⟨u, (here.after ('<' :: tag.toList)).offset, attributes, hname.append hu, ?_, hpairs⟩
  simpa [View.opening] using hsettles

end OpenTag

/-! ### Elements found in contents -/

theorem OpenElement.add_nil (e : OpenElement) : e.add [] = e := by
  simp [add, OpenTag.add]

theorem OpenElement.add_add (e : OpenElement) (es fs : List Element) :
    (e.add es).add fs = e.add (es ++ fs) := by
  simp [add, OpenTag.add]

/-- What is read of a text up to the end of an element leads to a content in which the element was
found last. -/
def Situation.FindsInContent (s : Situation) (here : Cursor) (cs : List Char) (f : Element) :
    Prop :=
  ∃ (front back : List Char) (e : OpenElement) (outer : List Context) (fs : List Element),
    cs = front ++ back ∧ s.Reads here front ⟨.content e .between, outer⟩ ∧
      e.tag.found = fs ++ [f] ∧ (here.after front).offset = f.stop

/-- No element stands in the opening tag of an element. -/
def Element.TagClear (e : Element) : Prop :=
  ∀ f ∈ e.children, e.openEnd ≤ f.start

/-- A text in the content of `e` is read as elements: they begin in the text, they and all inside
them are found in contents, and none stands in an opening tag. -/
structure ReadInContent (e : OpenElement) (outer : List Context) (here : Cursor) (cs : List Char)
    (es : List Element) : Prop where
  reads : Situation.Reads ⟨.content e .between, outer⟩ here cs ⟨.content (e.add es) .between, outer⟩
  begins : ∀ f ∈ es, here.offset ≤ f.start
  finds : ∀ f ∈ Element.walkAll es,
    Situation.FindsInContent ⟨.content e .between, outer⟩ here cs f
  clear : ∀ f ∈ Element.walkAll es, f.TagClear

section InContent

variable {s m : Situation} {here : Cursor} {as bs : List Char} {f : Element}

theorem Situation.FindsInContent.append_left (h : m.FindsInContent (here.after as) bs f)
    (has : s.Reads here as m) : s.FindsInContent here (as ++ bs) f := by
  obtain ⟨front, back, e, outer, fs, rfl, hreads, hfound, hstop⟩ := h
  refine ⟨as ++ front, back, e, outer, fs, by simp, has.append hreads, hfound, ?_⟩
  rw [Cursor.after_append, hstop]

theorem Situation.FindsInContent.append_right (h : s.FindsInContent here as f) (bs : List Char) :
    s.FindsInContent here (as ++ bs) f := by
  obtain ⟨front, back, e, outer, fs, rfl, h⟩ := h
  exact ⟨front, back ++ bs, e, outer, fs, by simp, h⟩

/-- A text in which no element is found. -/
theorem ReadInContent.of_reads {e : OpenElement} {outer : List Context}
    (h : Situation.Reads ⟨.content e .between, outer⟩ here as ⟨.content e .between, outer⟩) :
    ReadInContent e outer here as [] where
  reads := by rwa [e.add_nil]
  begins := List.forall_mem_nil _
  finds := by simp
  clear := by simp

/-- Two texts in a content are read one after the other. -/
theorem ReadInContent.append {e : OpenElement} {outer : List Context} {es fs : List Element}
    (has : ReadInContent e outer here as es)
    (hbs : ReadInContent (e.add es) outer (here.after as) bs fs) :
    ReadInContent e outer here (as ++ bs) (es ++ fs) where
  reads := by
    rw [← e.add_add]
    exact has.reads.append hbs.reads
  begins := by
    intro f hf
    -- What the second text brings lies behind the first one, and is found where that one ends.
    rcases List.mem_append.1 hf with hf | hf
    · exact has.begins f hf
    · have hle := hbs.begins f hf
      rw [Cursor.offset_after] at hle
      omega
  finds := by
    intro f hf
    rw [Element.walkAll_append, List.mem_append] at hf
    rcases hf with hf | hf
    · exact (has.finds f hf).append_right bs
    · exact (hbs.finds f hf).append_left has.reads
  clear := by
    intro f hf
    rw [Element.walkAll_append, List.mem_append] at hf
    rcases hf with hf | hf
    · exact has.clear f hf
    · exact hbs.clear f hf

/-- A text is read from a situation as an element that shows a view. Leaving the element leads to
what waits, and all inside it is found in contents. -/
structure ElementRead (s : Situation) (outer : List Context) (here : Cursor) (cs : List Char)
    (v : View) (el : Element) : Prop where
  shown : Shows [v] [el]
  start_eq : el.start = here.offset
  stop_eq : el.stop = (here.after cs).offset
  reads : ∀ u, leave [el] outer = .ok u → s.Reads here cs u
  finds : ∀ f ∈ Element.walkAll el.children, s.FindsInContent here cs f
  clear : ∀ f ∈ Element.walkAll [el], f.TagClear

/-- An element that is read in a content is found there when it ends. -/
theorem ElementRead.readInContent {e : OpenElement} {outer : List Context} {v : View} {el : Element}
    (h : ElementRead ⟨.content e .between, outer⟩ (.content e :: outer) here as v el) :
    ReadInContent e outer here as [el] where
  reads := h.reads _ rfl
  begins := by
    intro f hf
    rw [List.mem_singleton.1 hf, h.start_eq]
  finds := by
    intro f hf
    rw [Element.walkAll_cons, Element.walkAll_nil, List.append_nil] at hf
    rcases List.mem_cons.1 hf with rfl | hf
    · exact ⟨as, [], e.add [f], outer, e.tag.found, by simp, h.reads _ rfl, rfl, h.stop_eq.symm⟩
    · exact h.finds f hf
  clear := h.clear

end InContent

/-! ### Elements -/

/-- Characters of a content that open nothing. -/
theorem reads_plainContent {e : OpenElement} {outer : List Context} {here : Cursor} {cs : List Char}
    (h : ∀ c ∈ cs, c ≠ '<' ∧ c ≠ '\x7b') :
    Situation.Reads ⟨.content e .between, outer⟩ here cs ⟨.content e .between, outer⟩ := by
  refine .repeated fun c hc there => ?_
  obtain ⟨hangle, hbrace⟩ := h c hc
  simp [Situation.read, OpenElement.read, OpenElement.readBetween, OpenElement.goOn, hangle, hbrace]

/-- An escaped text opens nothing. -/
theorem ne_of_mem_escaped {cs : List Char} : ∀ c ∈ escaped cs, c ≠ '<' ∧ c ≠ '\x7b' := by
  intro c hc
  obtain ⟨hangle, -, hbrace, -⟩ := (isEscaped_escaped cs).plain c hc
  exact ⟨hangle, hbrace⟩

theorem ne_of_mem_indentation {depth : Nat} :
    ∀ c ∈ View.indentation depth, c ≠ '<' ∧ c ≠ '\x7b' := by
  intro c hc
  obtain rfl := List.eq_of_mem_replicate hc
  decide

/-- The characters of tags are ASCII characters. -/
theorem toNat_lt_of_isTagChar {c : Char} (h : isTagChar c = true) : c.toNat < 0x80 := by
  simp only [isTagChar, Bool.or_eq_true, beq_iff_eq] at h
  rcases h with ((((halnum | rfl) | rfl) | rfl) | rfl) | rfl
  · exact Text.toNat_lt_of_isAlphanum halnum
  all_goals decide

/-- No character of a tag is a blank. -/
theorem isBlank_of_isTagChar {c : Char} (h : isTagChar c = true) : Text.isBlank c = false :=
  Text.of_forall_ascii (p := fun c => isTagChar c = true → Text.isBlank c = false) (by decide)
    (toNat_lt_of_isTagChar h) h

/-- A closing tag ends the element that it names. -/
theorem reads_closeTag {e : OpenElement} {outer : List Context} {here : Cursor} {s : Situation}
    (htag : isTagName e.tag.name.toList = true)
    (hleave : leave [e.tag.element e.openEnd
      (here.after (View.closeTag e.tag.name)).offset false] outer = .ok s) :
    Situation.Reads ⟨.content e .between, outer⟩ here (View.closeTag e.tag.name) s := by
  have hchars := isTagChar_of_mem htag
  have hangle : Situation.read ⟨.content e .between, outer⟩ here '<' =
      .ok ⟨.content e (.angle here.offset), outer⟩ := rfl
  have hslash : Situation.read ⟨.content e (.angle here.offset), outer⟩ (here.advance '<') '/' =
      .ok ⟨.content e (.closing here.offset), outer⟩ := rfl
  refine .cons hangle (.cons hslash ((Situation.Reads.repeated fun c hc there => ?_).append
    (.single ?_)))
  · have hclose : c ≠ '>' := isTagChar_ne (hchars c hc) (by decide)
    simp [Situation.read, OpenElement.read, OpenElement.goOn, hclose]
  · have hsince :
        (((here.advance '<').advance '/').after e.tag.name.toList).since (here.offset + 2) =
        e.tag.name.toList :=
      Cursor.since_after_mark (here.advance '<') (by decide) _
    have htrimmed : Text.trimmed e.tag.name.toList = e.tag.name.toList :=
      Text.trimmed_eq_self fun c hc => isBlank_of_isTagChar (hchars c hc)
    have hsize : '>'.utf8Size = 1 := by decide
    simp only [Situation.read, OpenElement.read, OpenElement.close, hsince, htrimmed,
      String.ofList_toList]
    simpa [View.closeTag, hsize] using hleave

section Element

variable {s m : Situation} {outer : List Context} {here : Cursor} {tag : String}
  {as : List View.Attribute} {children : List View}

/-- A text that is read as the content of an element: it leaves the content with elements that show
the views `children`. -/
def ReadsAsContent (cs : List Char) (children : List View) : Prop :=
  ∀ (e : OpenElement) (outer : List Context) (here : Cursor), ∃ es, Shows children es ∧
    ReadInContent e outer here cs es

/-- Views that are shown one after the other are shown together. -/
theorem Shows.append {vs ws : List View} {es fs : List Element} (hes : Shows vs es)
    (hfs : Shows ws fs) : Shows (vs ++ ws) (es ++ fs) := by
  induction hes with
  | nil => exact hfs
  | text _ ih => exact .text ih
  | element htag hattributes inside _ hclosing _ ih =>
    exact .element htag hattributes inside ih hclosing

/-- A text in which nothing opens is a content without elements. -/
theorem readsAsContent_plain {cs : List Char} (h : ∀ c ∈ cs, c ≠ '<' ∧ c ≠ '\x7b') :
    ReadsAsContent cs [] := by
  intro e outer here
  exact ⟨[], .nil, .of_reads (reads_plainContent h)⟩

/-- Two contents make up one. -/
theorem ReadsAsContent.append {cs ds : List Char} {vs ws : List View} (hcs : ReadsAsContent cs vs)
    (hds : ReadsAsContent ds ws) : ReadsAsContent (cs ++ ds) (vs ++ ws) := by
  intro e outer here
  obtain ⟨es, hes, hfirst⟩ := hcs e outer here
  obtain ⟨fs, hfs, hsecond⟩ := hds (e.add es) outer (here.after cs)
  exact ⟨es ++ fs, hes.append hfs, hfirst.append hsecond⟩

/-- A written element whose content is read is read as an element that shows it. -/
theorem reads_tags {body : List Char} (hangle : s.read here '<' = .ok m)
    (hopen : ∀ there c, opensElement c = true →
      m.read there c = OpenTag.read { start := here.offset } outer there c .name)
    (htag : isTagName tag.toList = true) (has : ∀ a ∈ as, a.Readable)
    (hbody : ReadsAsContent body children) (hclosing : View.closesItself tag children = false) :
    ∃ el, ElementRead s outer here (View.openTag tag as ++ body ++ View.closeTag tag)
      (.element tag as children) el := by
  obtain ⟨n, nameEnd, attributes, hn, hsettles, hpairs⟩ := reads_opening hangle hopen htag has
  -- The end of the opening tag enters the content, which the closing tag leaves.
  have henter := hsettles.close
  have hopened := hn.append (.single henter)
  have hplace : here.after (View.openTag tag as) =
      (here.after ('<' :: View.opening tag as)).advance '>' := by
    simp [View.openTag]
  let head : OpenTag := { start := here.offset, name := tag, nameEnd, attributes }
  let openEnd := (here.after ('<' :: View.opening tag as)).offset + 1
  have hopenEnd : openEnd = (here.after (View.openTag tag as)).offset := by
    rw [hplace, Cursor.offset_advance]
    rfl
  obtain ⟨es, hes, hcontent⟩ := hbody ⟨head, openEnd⟩ outer (here.after (View.openTag tag as))
  let stop := (here.after (View.openTag tag as ++ body ++ View.closeTag tag)).offset
  have hinside : (head.add es).found = es := List.nil_append es
  refine ⟨(head.add es).element openEnd stop false, .element rfl hpairs ?_ .nil hclosing.symm,
    rfl, rfl, fun u hu => ?_, fun f hf => ?_, fun f hf => ?_⟩
  · exact hinside.symm ▸ hes
  · have hclosed : Situation.Reads ⟨.content ⟨head.add es, openEnd⟩ .between, outer⟩
        (here.after (View.openTag tag as ++ body)) (View.closeTag tag) u := by
      refine reads_closeTag htag ?_
      rw [← Cursor.after_append]
      exact hu
    exact (hopened.append hcontent.reads).append hclosed
  · have hfinds := (hcontent.finds f (hinside ▸ hf)).append_left hopened
    exact hfinds.append_right _
  · rw [Element.walkAll_cons, Element.walkAll_nil, List.append_nil] at hf
    rcases List.mem_cons.1 hf with rfl | hf
    · intro g hg
      exact hopenEnd ▸ hcontent.begins g (hinside ▸ hg)
    · exact hcontent.clear f (hinside ▸ hf)

/-- A written element without content is read as an element that shows it. -/
theorem reads_selfClosing (hangle : s.read here '<' = .ok m)
    (hopen : ∀ there c, opensElement c = true →
      m.read there c = OpenTag.read { start := here.offset } outer there c .name)
    (htag : isTagName tag.toList = true) (has : ∀ a ∈ as, a.Readable)
    (hclosing : View.closesItself tag [] = true) :
    ∃ el, ElementRead s outer here ('<' :: (View.opening tag as ++ " />".toList))
      (.element tag as []) el := by
  obtain ⟨n, nameEnd, attributes, hn, hsettles, hpairs⟩ := reads_opening hangle hopen htag has
  obtain ⟨n', hspace, hnext⟩ := hsettles.gap
  let slash := (here.after ('<' :: View.opening tag as)).advance ' '
  let t : OpenTag := { start := here.offset, name := tag, nameEnd, attributes }
  have hslash := hnext slash '/' (by decide) (by decide)
  let stop := (slash.advance '/').offset + 1
  have hstop : stop = (here.after ('<' :: (View.opening tag as ++ " />".toList))).offset := by
    rw [← List.cons_append, Cursor.after_append]
    rfl
  refine ⟨t.element stop stop true, .element rfl hpairs .nil .nil hclosing.symm, rfl, hstop,
    fun u hu => ?_, by simp [OpenTag.element, t], by simp [OpenTag.element, t, Element.TagClear]⟩
  exact hn.append (.cons hspace (.cons hslash (.single hu)))

/-- In a content an angle bracket opens an element. -/
theorem content_opens {e : OpenElement} {there : Cursor} {start : Nat} {c : Char}
    (hc : opensElement c = true) :
    Situation.read ⟨.content e (.angle start), outer⟩ there c =
      OpenTag.read { start } (.content e :: outer) there c .name := by
  have hslash : c ≠ '/' := by
    rintro rfl
    exact absurd hc (by decide)
  simp [Situation.read, OpenElement.read, hslash, hc]

/-- A written element is a content. -/
theorem readsAsContent_tags {body : List Char} (htag : isTagName tag.toList = true)
    (has : ∀ a ∈ as, a.Readable) (hbody : ReadsAsContent body children)
    (hclosing : View.closesItself tag children = false) :
    ReadsAsContent (View.openTag tag as ++ body ++ View.closeTag tag)
      [.element tag as children] := by
  intro e outer here
  have hangle : Situation.read ⟨.content e .between, outer⟩ here '<' =
      .ok ⟨.content e (.angle here.offset), outer⟩ := rfl
  obtain ⟨el, hread⟩ := reads_tags hangle (fun _ _ => content_opens) htag has hbody hclosing
  exact ⟨[el], hread.shown, hread.readInContent⟩

/-- A written element without content is a content. -/
theorem readsAsContent_selfClosing (htag : isTagName tag.toList = true)
    (has : ∀ a ∈ as, a.Readable) (hclosing : View.closesItself tag [] = true) :
    ReadsAsContent ('<' :: (View.opening tag as ++ " />".toList)) [.element tag as []] := by
  intro e outer here
  have hangle : Situation.read ⟨.content e .between, outer⟩ here '<' =
      .ok ⟨.content e (.angle here.offset), outer⟩ := rfl
  obtain ⟨el, hread⟩ := reads_selfClosing hangle (fun _ _ => content_opens) htag has hclosing
  exact ⟨[el], hread.shown, hread.readInContent⟩

end Element

/-! ### Views -/

theorem readsAsContent_indentation (depth : Nat) : ReadsAsContent (View.indentation depth) [] :=
  readsAsContent_plain ne_of_mem_indentation

theorem readsAsContent_newline : ReadsAsContent ['\n'] [] :=
  readsAsContent_plain (by simp)

/-- A text is a content that shows it. -/
theorem readsAsContent_text (s : String) : ReadsAsContent (escaped s.toList) [.text s] := by
  intro e outer here
  exact ⟨[], .text .nil, .of_reads (reads_plainContent ne_of_mem_escaped)⟩

/-- An element is written on lines of its own around what is inside it. -/
theorem readsAsContent_element {tag : String} {as : List View.Attribute} {children : List View}
    (htag : isTagName tag.toList = true) (has : ∀ a ∈ as, a.Readable)
    (ih : ∀ depth, ReadsAsContent (View.charsOfAll depth children) children) (depth : Nat) :
    ReadsAsContent (View.chars depth (.element tag as children)) [.element tag as children] := by
  have line {body : List Char} (h : ReadsAsContent body [.element tag as children]) :
      ReadsAsContent (View.indentation depth ++ body ++ ['\n']) [.element tag as children] :=
    ((readsAsContent_indentation depth).append h).append readsAsContent_newline
  -- The cases are those of `View.chars`.
  unfold View.chars
  split
  · contradiction
  · next heq =>
    cases heq
    refine line ?_
    split
    · next hvoid =>
      exact readsAsContent_selfClosing htag has (by simpa [View.closesItself] using hvoid)
    · next hvoid =>
      have hbody := readsAsContent_tags htag has (readsAsContent_plain (List.forall_mem_nil _))
        (by simpa [View.closesItself] using hvoid)
      simpa using hbody
  · next s heq =>
    cases heq
    have hbody := line (readsAsContent_tags htag has (readsAsContent_text s)
      (by simp [View.closesItself]))
    simpa using hbody
  · next hne _ heq =>
    cases heq
    have hclosing : View.closesItself tag children = false := by
      simpa [View.closesItself] using fun _ => hne
    have hinside := (readsAsContent_newline.append (ih (depth + 1))).append
      (readsAsContent_indentation depth)
    have hbody := line (readsAsContent_tags htag has (by simpa using hinside) hclosing)
    simpa using hbody

/-- Written views are a content that shows them. -/
theorem readsAsContent_charsOfAll {vs : List View} (h : View.ReadableAll vs) (depth : Nat) :
    ReadsAsContent (View.charsOfAll depth vs) vs := by
  induction vs using View.forest_induction generalizing depth with
  | nil => exact readsAsContent_plain (by simp [View.charsOfAll])
  | text s vs ih =>
    have hline := ((readsAsContent_indentation depth).append (readsAsContent_text s)).append
      readsAsContent_newline
    exact hline.append (ih h.2 depth)
  | element tag as children vs ihc ihs =>
    obtain ⟨⟨htag, has, hchildren⟩, hvs⟩ := h
    exact (readsAsContent_element htag has (ihc hchildren) depth).append (ihs hvs depth)

end Mockup.Jsx
