import Mockup.Proofs.Markup.Pruned
import Mockup.Proofs.Xml.Suffix

/-!
# The tags behind a document

Every element of a document that is read comes from an opening tag in the text, whose attributes it
has under their local names. In such a tag no name stands twice, because a prefix stands for one
namespace; one local name may stand twice all the same, after different prefixes.

* `tag.localAttributes` — the attributes of a tag as its element has them.
* `tag.IsTagOf text` — the tag stands in the text, and no name stands twice in it.

## Main results

* `nodup_names_of_checkAttributes`: attributes that pass their check differ in their full names.
* `Progress.IsSourced.contentStep`: each part of the content keeps that all elements so far come
  from tags.
* `Document.exists_tag_of_holds`: every element of a document comes from a tag of its text.
-/

namespace Mockup.Xml

/-! ### The attributes of a tag -/

/-- The attributes of a tag under their local names. -/
def Tag.localAttributes (tag : Tag) : List (String × String) :=
  tag.attributes.attributes.map fun a => (a.name.name, a.value)

/-- A tag stands in a text, and no two of its attributes have the same prefix and local name. -/
structure Tag.IsTagOf (text : List Char) (tag : Tag) : Prop where
  /-- The tag is read from some place of the text on. -/
  place : ∃ here rest, here <:+ text ∧ openingTag here = .ok (tag, rest)
  /-- Its attributes differ in their names, prefixes included. -/
  names : (tag.attributes.attributes.map RawAttribute.name).Nodup

/-- Which namespace an attribute has depends on its prefix only. -/
theorem attributeNamespace_of_qualifier {scope : Scope} {a b : RawAttribute} {uri : Option String}
    (hsame : a.name.qualifier = b.name.qualifier) (ha : attributeNamespace scope a = .ok uri) :
    attributeNamespace scope b = .ok uri := by
  unfold attributeNamespace at ha ⊢
  rw [← hsame]
  -- The two readings differ in the error for an unknown prefix only, which is not `ha`.
  split at ha
  · next hnone => rwa [if_pos hnone]
  · next hsome =>
    rw [if_neg hsome]
    split at ha
    · next hxml => rwa [if_pos hxml]
    · next hother =>
      rw [if_neg hother]
      split at ha
      · exact ha
      · cases ha

/-- The first attribute has a namespace in which its local name is new, and the others are checked
with that one as seen. -/
theorem checkAttributes_cons {scope : Scope} {seen : List (Option String × String)}
    {a : RawAttribute} {as : List RawAttribute}
    (h : checkAttributes scope seen (a :: as) = .ok ()) :
    ∃ uri, attributeNamespace scope a = .ok uri ∧ (uri, a.name.name) ∉ seen ∧
      checkAttributes scope ((uri, a.name.name) :: seen) as = .ok () := by
  rw [checkAttributes] at h
  obtain ⟨uri, huri, h⟩ := bind_eq_ok_iff.1 h
  dsimp only at h
  split at h
  · cases h
  · next hnew => exact ⟨uri, huri, by simpa using hnew, h⟩

theorem not_mem_seen_of_checkAttributes {scope : Scope} {seen : List (Option String × String)}
    {as : List RawAttribute} (h : checkAttributes scope seen as = .ok ()) {b : RawAttribute}
    (hb : b ∈ as) {uri : Option String} (huri : attributeNamespace scope b = .ok uri) :
    (uri, b.name.name) ∉ seen := by
  induction as generalizing seen with
  | nil => cases hb
  | cons a as ih =>
    obtain ⟨uri', huri', hnew, hrest⟩ := checkAttributes_cons h
    rcases List.mem_cons.1 hb with rfl | hb
    · cases huri.symm.trans huri'
      exact hnew
    · exact fun hmem => ih hrest hb (List.mem_cons_of_mem _ hmem)

/-- Attributes that pass their check differ in their names, prefixes included. -/
theorem nodup_names_of_checkAttributes {scope : Scope} {seen : List (Option String × String)}
    {as : List RawAttribute} (h : checkAttributes scope seen as = .ok ()) :
    (as.map RawAttribute.name).Nodup := by
  induction as generalizing seen with
  | nil => exact List.nodup_nil
  | cons a as ih =>
    obtain ⟨uri, huri, -, hrest⟩ := checkAttributes_cons h
    rw [List.map_cons, List.nodup_cons]
    refine ⟨?_, ih hrest⟩
    rintro hmem
    obtain ⟨b, hb, hname⟩ := List.mem_map.1 hmem
    -- One prefix stands for one namespace, in which the local name was seen before.
    have hsame : a.name.qualifier = b.name.qualifier := by rw [hname]
    have hb := not_mem_seen_of_checkAttributes hrest hb (attributeNamespace_of_qualifier hsame huri)
    rw [hname] at hb
    exact hb List.mem_cons_self

/-! ### What each part of a document makes of the elements so far -/

/-- The element that a tag opens. -/
def Tag.element (tag : Tag) (scope : Scope) : OpenElement :=
  ⟨tag.name, tag.localAttributes, scope, []⟩

/-- An opening tag makes no element if it is cut off. Otherwise its attributes are checked, and its
element stays open or is complete. -/
theorem Progress.opened_cases {tag : Tag} {outer : List OpenElement} {p : Progress}
    (h : Progress.opened tag outer = .ok p) :
    p = .cut ∨ (∃ e es, outer = e :: es ∧ p = .inside e es) ∨
      ∃ scope, checkAttributes scope [] tag.attributes.attributes = .ok () ∧
        (p = .inside (tag.element scope) outer ∨ p = .closed (tag.element scope).close outer) := by
  unfold opened at h
  dsimp only at h
  split at h
  · cases outer with
    | nil =>
      cases h
      exact .inl rfl
    | cons e es =>
      cases h
      exact .inr (.inl ⟨e, es, rfl, rfl⟩)
  · obtain ⟨⟨⟩, hattributes, h⟩ := bind_eq_ok_iff.1 h
    obtain ⟨⟨⟩, -, h⟩ := bind_eq_ok_iff.1 h
    refine .inr (.inr ⟨_, hattributes, ?_⟩)
    cases h
    split
    · exact .inr rfl
    · exact .inl rfl

/-- What becomes of the innermost open element `e` and those around it when one part of its content
is read from the front of `cs`. -/
inductive Progress.Follows (cs : List Char) (e : OpenElement) (outer : List OpenElement) :
    Progress → Prop
  /-- The text is at its end. -/
  | same : Follows cs e outer (.inside e outer)
  /-- A comment or an instruction is added. -/
  | leaf {n : Node} (hleaf : ∀ name attributes, ¬ n.Holds name attributes) :
    Follows cs e outer (.inside (e.addChild n) outer)
  /-- Text is added. -/
  | text (s : String) : Follows cs e outer (.inside (e.addText s) outer)
  /-- The element is complete. -/
  | closed : Follows cs e outer (.closed e.close outer)
  /-- A tag stands in it. -/
  | opened {tag : Tag} {rest : List Char} {p : Progress} (htag : openingTag cs = .ok (tag, rest))
    (hopened : Progress.opened tag (e :: outer) = .ok p) : Follows cs e outer p

theorem contentStep_cases {e : OpenElement} {outer : List OpenElement} {cs : List Char}
    {p : Text.Progress Progress} (h : contentStep (.inside e outer) cs = .ok p) :
    p.rest <:+ cs ∧ Progress.Follows cs e outer p.state := by
  unfold contentStep at h
  dsimp only at h
  -- The cases are those of the first characters, in the order in which they are looked at.
  split at h
  · cases h
    exact ⟨List.suffix_refl _, .same⟩
  · cases h
  · split at h
    · obtain ⟨⟨_, rest⟩, hread, h⟩ := bind_eq_ok_iff.1 h
      cases h
      exact ⟨suffix_of_readComment hread, .leaf (by rintro _ _ ⟨⟩)⟩
    split at h
    · obtain ⟨⟨_, back⟩, hback, h⟩ := bind_eq_ok_iff.1 h
      obtain ⟨rest, hrest, h⟩ := bind_eq_ok_iff.1 h
      cases h
      exact ⟨(suffix_of_expectText hrest).trans
        ((suffix_of_spanBefore hback).trans (List.drop_suffix 9 _)), .text _⟩
    · cases h
  · obtain ⟨⟨_, rest⟩, hread, h⟩ := bind_eq_ok_iff.1 h
    cases h
    exact ⟨suffix_of_readInstruction hread, .leaf (by rintro _ _ ⟨⟩)⟩
  · obtain ⟨⟨_, rest⟩, hread, h⟩ := bind_eq_ok_iff.1 h
    dsimp only at h
    split at h
    · cases h
    · cases h
      exact ⟨suffix_of_closingTag hread, .closed⟩
  · obtain ⟨⟨tag, rest⟩, htag, h⟩ := bind_eq_ok_iff.1 h
    obtain ⟨q, hopened, h⟩ := bind_eq_ok_iff.1 h
    cases h
    exact ⟨suffix_of_openingTag htag, .opened htag hopened⟩
  · obtain ⟨⟨_, rest⟩, hread, h⟩ := bind_eq_ok_iff.1 h
    dsimp only at h
    split at h
    · cases h
    · obtain ⟨_, -, h⟩ := bind_eq_ok_iff.1 h
      cases h
      exact ⟨suffix_of_spanChars hread, .text _⟩

/-! ### Every element comes from a tag -/

/-- An element with this name and these attributes comes from a tag of the text. -/
def Sourced (text : List Char) (name : String) (attributes : List (String × String)) : Prop :=
  ∃ tag : Tag, tag.IsTagOf text ∧ tag.name.name = name ∧ tag.localAttributes = attributes

/-- All elements of a node come from tags of the text. -/
def Node.IsSourced (text : List Char) (n : Node) : Prop :=
  ∀ name attributes, n.Holds name attributes → Sourced text name attributes

/-- An open element and all elements in it so far come from tags of the text. -/
structure OpenElement.IsSourced (text : List Char) (e : OpenElement) : Prop where
  self : Sourced text e.name.name e.attributes
  children : ∀ n ∈ e.children, n.IsSourced text

/-- All elements so far come from tags of the text. -/
def Progress.IsSourced (text : List Char) : Progress → Prop
  | .inside inner outer => inner.IsSourced text ∧ ∀ e ∈ outer, e.IsSourced text
  | .done d => d.root.IsSourced text
  | .cut => True

section Kept

variable {text cs : List Char} {e : OpenElement} {outer : List OpenElement}

theorem OpenElement.IsSourced.addChild (he : e.IsSourced text) {n : Node}
    (hn : n.IsSourced text) : (e.addChild n).IsSourced text :=
  ⟨he.self, List.forall_mem_cons.2 ⟨hn, he.children⟩⟩

theorem Node.isSourced_of_leaf {n : Node} (hleaf : ∀ name attributes, ¬ n.Holds name attributes) :
    n.IsSourced text :=
  fun name attributes hholds => absurd hholds (hleaf name attributes)

theorem Node.isSourced_text (s : String) : (Node.text s).IsSourced text :=
  isSourced_of_leaf (by rintro _ _ ⟨⟩)

theorem OpenElement.IsSourced.addText (he : e.IsSourced text) (s : String) :
    (e.addText s).IsSourced text := by
  unfold OpenElement.addText
  -- Text that continues a run takes the place of the run, which is no element either.
  split
  · next t rest hlast =>
    have hchildren := he.children
    rw [hlast] at hchildren
    exact ⟨he.self, List.forall_mem_cons.2
      ⟨Node.isSourced_text _, (List.forall_mem_cons.1 hchildren).2⟩⟩
  · exact he.addChild (Node.isSourced_text s)

theorem OpenElement.IsSourced.close (he : e.IsSourced text) : e.close.root.IsSourced text := by
  intro name attributes hholds
  cases hholds with
  | here => exact he.self
  | inside hmem hholds => exact he.children _ (List.mem_reverse.1 hmem) _ _ hholds

/-- A complete element goes to the one around it. -/
theorem Progress.isSourced_closed {d : Document} (hd : d.root.IsSourced text)
    (houter : ∀ e ∈ outer, e.IsSourced text) : (Progress.closed d outer).IsSourced text := by
  cases outer with
  | nil => exact hd
  | cons e outer =>
    obtain ⟨he, houter⟩ := List.forall_mem_cons.1 houter
    exact ⟨he.addChild hd, houter⟩

/-- The element that a tag of the text opens comes from it. -/
theorem Tag.isSourced_element {tag : Tag} {rest : List Char} {scope : Scope} (hcs : cs <:+ text)
    (htag : openingTag cs = .ok (tag, rest))
    (hattributes : checkAttributes scope [] tag.attributes.attributes = .ok ()) :
    (tag.element scope).IsSourced text :=
  ⟨⟨tag, ⟨⟨cs, rest, hcs, htag⟩, nodup_names_of_checkAttributes hattributes⟩, rfl, rfl⟩,
    by rintro _ ⟨⟩⟩

theorem Progress.isSourced_opened {tag : Tag} {rest : List Char} {p : Progress} (hcs : cs <:+ text)
    (htag : openingTag cs = .ok (tag, rest)) (houter : ∀ e ∈ outer, e.IsSourced text)
    (h : Progress.opened tag outer = .ok p) : p.IsSourced text := by
  rcases opened_cases h with rfl | ⟨e, es, rfl, rfl⟩ | ⟨scope, hattributes, rfl | rfl⟩
  · trivial
  · exact List.forall_mem_cons.1 houter
  · exact ⟨Tag.isSourced_element hcs htag hattributes, houter⟩
  · exact isSourced_closed (Tag.isSourced_element hcs htag hattributes).close houter

/-- Each part of the content keeps that all elements come from tags. -/
theorem Progress.IsSourced.contentStep {p : Progress} (hp : p.IsSourced text) (hcs : cs <:+ text)
    {q : Text.Progress Progress} (h : contentStep p cs = .ok q) :
    q.rest <:+ text ∧ q.state.IsSourced text := by
  obtain ⟨state, rest, again⟩ := q
  cases p with
  | inside e outer =>
    obtain ⟨he, houter⟩ := hp
    obtain ⟨hrest, hfollows⟩ := contentStep_cases h
    refine ⟨hrest.trans hcs, ?_⟩
    cases hfollows with
    | same => exact ⟨he, houter⟩
    | leaf hleaf => exact ⟨he.addChild (Node.isSourced_of_leaf hleaf), houter⟩
    | text s => exact ⟨he.addText s, houter⟩
    | closed => exact isSourced_closed he.close houter
    | opened htag hopened =>
      exact isSourced_opened hcs htag (List.forall_mem_cons.2 ⟨he, houter⟩) hopened
  | done d =>
    cases h
    exact ⟨hcs, hp⟩
  | cut =>
    cases h
    exact ⟨hcs, hp⟩

/-- All elements of the outermost element come from tags. -/
theorem isSourced_outermost {rest : List Char} {p : Progress} (hcs : cs <:+ text)
    (h : outermost cs = .ok (p, rest)) : p.IsSourced text := by
  unfold outermost at h
  split at h
  · obtain ⟨⟨tag, back⟩, htag, h⟩ := bind_eq_ok_iff.1 h
    obtain ⟨start, hopened, h⟩ := bind_eq_ok_iff.1 h
    have hstart : back <:+ text ∧ start.IsSourced text :=
      ⟨(suffix_of_openingTag htag).trans hcs,
        Progress.isSourced_opened hcs htag (by rintro _ ⟨⟩) hopened⟩
    exact (Text.repeatRead_invariant (P := fun p cs => cs <:+ text ∧ p.IsSourced text)
      (fun p cs q hp hq => hp.2.contentStep hp.1 hq) hstart h).2
  · cases h
    trivial

end Kept

/-- A document is the outermost element that is read from some place of the text on. -/
theorem Document.exists_outermost_of_readFrom {text : List Char} {d : Document}
    (h : Document.readFrom text = .ok d) :
    ∃ here rest, here <:+ text ∧ outermost here = .ok (.done d, rest) := by
  have hstart : (if startsWith "\ufeff" text then text.drop 1 else text) <:+ text := by
    split
    · exact List.drop_suffix 1 text
    · exact List.suffix_refl text
  unfold readFrom at h
  dsimp only at h
  -- The declaration may be missing; what follows is the same in both cases.
  generalize (if startsWith "\ufeff" text then text.drop 1 else text) = start at h hstart
  obtain ⟨body, hbody, h⟩ := ite_bind_eq_ok_iff.1 h
  obtain ⟨here, hhere, h⟩ := bind_eq_ok_iff.1 h
  have hbody : body <:+ text := by
    split at hbody
    · exact (suffix_of_readDeclaration hbody).trans hstart
    · cases hbody
      exact hstart
  split at h
  · cases h
  obtain ⟨⟨p, back⟩, hp, h⟩ := bind_eq_ok_iff.1 h
  obtain ⟨after, -, h⟩ := bind_eq_ok_iff.1 h
  split at h
  · cases h
  cases p with
  | done d' =>
    cases h
    exact ⟨here, back, (suffix_of_miscellany hhere).trans hbody, hp⟩
  | inside e outer => cases h
  | cut => cases h

/-- Every element of a document that is read comes from a tag of its text. -/
theorem Document.exists_tag_of_holds {text : String} {d : Document} (h : Document.read text = .ok d)
    {name : String} {attributes : List (String × String)} (hholds : d.root.Holds name attributes) :
    ∃ tag : Tag, tag.IsTagOf text.toList ∧ tag.name.name = name ∧
      tag.localAttributes = attributes := by
  obtain ⟨here, rest, hhere, hread⟩ := exists_outermost_of_readFrom (mapError_eq_ok_iff.1 h)
  exact isSourced_outermost hhere hread name attributes hholds

end Mockup.Xml
