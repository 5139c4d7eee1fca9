import Mockup.Proofs.Jsx.Beside
import Mockup.Proofs.Jsx.Inserted
import Mockup.Proofs.Jsx.PlanAttributes
import Mockup.Proofs.Patch.Edit

/-!
# Inserting an element after another one

In the file of a plan every element but the wrapper stands in the content of an element. The text of
one element that is inserted after it is read there as its next sibling, and everything else is read
as before.

* `Relocated i k n x x'` — an entry with another position, and its relations with it.
* `InsertedAfter all all' i x r` — the entries of `r` are put after those of the entry `x`.

## Main results

* `Kept.insertedAfter`: where elements are kept, the entries of the new one are put among theirs.
* `exists_wrapper_ofPlan`: in the file of a plan elements are found in contents.
* `scan_insertAfter`: what an insertion does to the file of a plan.
-/

namespace Mockup

namespace Jsx

open Element (bump spread Descends)

/-! ### Entries -/

/-- An entry after `n` others were put at position `k`, behind what is inside the entry at `i`: it
has the same tag, attributes and relations. -/
structure Relocated (i k n : Nat) (x x' : Element.Entry) : Prop where
  tag : x'.element.tag = x.element.tag
  selfClosing : x'.element.selfClosing = x.element.selfClosing
  /-- The names and the values of the attributes. -/
  attributes : x'.element.attributes.map Attribute.pair = x.element.attributes.map Attribute.pair
  /-- The parent is the same entry, at its new position. -/
  parent : x'.parent = x.parent.map (bump k n)
  /-- So are the children, and after the one at `i` there is a new one. -/
  children : x'.children = x.children.flatMap (spread i k n)

/-- In `all'` the entries of an element `r`, read one character after the end of the entry `x` at
position `i`, are put among the entries `all`. -/
structure InsertedAfter (all all' : List Element.Entry) (i : Nat) (x : Element.Entry)
    (r : Element) : Prop where
  /-- The entry and those inside it stand together. -/
  subtree_iff : ∀ j, (j = i ∨ Descends all j i) ↔ i ≤ j ∧ j < i + x.element.size
  /-- The entries of `r` follow those, with the parent of the entry as the parent of the first, and
  the other entries stay as they are. -/
  entries_eq : ∃ front back,
    all' = front ++ (Element.entriesOfAll none 0 [r]).map
      (Element.Entry.moved (x.element.stop + 1) (i + x.element.size) x.parent) ++ back ∧
    List.Forall₂ (Relocated i (i + x.element.size) r.size) (all.take (i + x.element.size)) front ∧
    List.Forall₂ (Relocated i (i + x.element.size) r.size) (all.drop (i + x.element.size)) back
  /-- The first of the entries of `r` is the next child of the parent. -/
  sibling : ∃ p y' before after, x.parent = some p ∧ all'[p]? = some y' ∧
    y'.children = before ++ i :: (i + x.element.size) :: after

section Entries

variable {d : Splice} {source : List Char} {lo hi i : Nat} {es es' : List Element}
  {x : Element.Entry} {r : Element}

/-- In children, the one after which an element is put is followed by that element. -/
theorem exists_flatMap_spread {k n : Nat} {children : List Nat} (h : i ∈ children) :
    ∃ before after, children.flatMap (spread i k n) = before ++ i :: k :: after := by
  obtain ⟨front, back, rfl⟩ := List.append_of_mem h
  refine ⟨front.flatMap (spread i k n), back.flatMap (spread i k n), ?_⟩
  rw [List.flatMap_append, List.flatMap_cons, spread, if_pos rfl]
  rfl

/-- An entry with a parent is a child of that parent, which stands before it. -/
theorem exists_parent_of_ne_zero {e : Element} (hi : i ≠ 0)
    (hx : (Element.entriesOfAll none 0 [e])[i]? = some x) : ∃ p y, x.parent = some p ∧ p < i ∧
      (Element.entriesOfAll none 0 [e])[p]? = some y ∧ i ∈ y.children := by
  rcases Element.parent_of_mem_zipIdx (List.mk_mem_zipIdx_iff_getElem?.2 hx) with
    ⟨hnone, -⟩ | ⟨p, y, hparent, hy, hlt, -, hchild⟩
  · exact absurd ((Element.parent_eq_none_iff_of_singleton hx).1 hnone) hi
  · exact ⟨p, y, hparent, hlt, List.mk_mem_zipIdx_iff_getElem?.1 hy, hchild⟩

/-- An edit at the end of an element, where no element stands in an opening tag, leaves the
attributes of every entry. -/
theorem EntryShifted.relocated {k n : Nat} {y y' : Element.Entry} (h : EntryShifted d i k n y y')
    (forest : Forest source lo es hi) (hclear : ∀ f ∈ Element.walkAll es, f.TagClear)
    (hx : x ∈ Element.entriesOfAll none 0 es) (hy : y ∈ Element.entriesOfAll none 0 es)
    (hstart : d.start = x.element.stop) (hstop : d.stop = x.element.stop)
    (hadded : d.added = none) :
    Relocated i k n y y' where
  tag := h.element.tag
  selfClosing := h.element.selfClosing
  attributes := by
    have mem_of_mem {z : Element.Entry} (hz : z ∈ Element.entriesOfAll none 0 es) :
        z.element ∈ Element.walkAll es := by
      rw [← Element.map_element_entriesOfAll none 0]
      exact List.mem_map_of_mem hz
    refine h.element.map_pair_eq hadded (hstart.trans hstop.symm) fun a ha => ?_
    rw [Splice.EnclosedBy, hstart, hstop]
    exact forest.not_in_attribute hclear (mem_of_mem hx) (mem_of_mem hy) ha
  parent := h.parent
  children := h.children

/-- Where an element is put after the entry at `i` and the other elements are kept, its entries are
put among theirs. -/
theorem Kept.insertedAfter {e : Element} (h : Kept d [e] es') (forest : Forest source lo [e] hi)
    (hx : (Element.entriesOfAll none 0 [e])[i]? = some x) (hi : i ≠ 0)
    (hstart : d.start = x.element.stop) (hstop : d.stop = x.element.stop) (hadded : d.added = none)
    (hkeep : ∀ f, d.drops f = false) (hone : d.inserted = [r.moved (x.element.stop + 1)])
    (hclear : ∀ f ∈ Element.walkAll [e], f.TagClear) :
    InsertedAfter (Element.entriesOfAll none 0 [e]) (Element.entriesOfAll none 0 es') i x r := by
  have hinserted := h.inserted hkeep forest hone hx hstart.symm (by simp)
  obtain ⟨front, back, front', back', hall, hlength, hall', hfront, hback⟩ := hinserted.entries_eq
  rw [Nat.zero_add] at hlength hall' hfront hback
  rw [Nat.zero_add] at hlength
  rw [Element.size_moved] at hfront hback
  have relocated {part part' : List Element.Entry}
      (hpart : ∀ y ∈ part, y ∈ Element.entriesOfAll none 0 [e])
      (shifted : List.Forall₂ (EntryShifted d i (i + x.element.size) r.size) part part') :
      List.Forall₂ (Relocated i (i + x.element.size) r.size) part part' :=
    ((List.forall₂_and_left _ _).2 ⟨hpart, shifted⟩).imp fun y y' hy =>
      hy.2.relocated forest hclear (List.mem_of_getElem? hx) hy.1 hstart hstop hadded
  have hfront' := relocated (fun y hy => hall ▸ List.mem_append_left back hy) hfront
  have hback' := relocated (fun y hy => hall ▸ List.mem_append_right front hy) hback
  refine ⟨fun j => ?_, ⟨front', back', ?_, ?_, ?_⟩, ?_⟩
  · have hsize := Element.size_eq x.element
    rw [Element.descends_iff hx]
    omega
  · have hmoved := Element.entriesOfAll_moved (n := x.element.stop + 1) (i := i + x.element.size)
      none x.parent 0 [r]
    rw [Option.map_none, Option.none_or, Nat.zero_add, List.map_singleton] at hmoved
    rw [hall', hmoved]
  · have htake : (front ++ back).take (i + x.element.size) = front := List.take_left' hlength
    rwa [hall, htake]
  · have hdrop : (front ++ back).drop (i + x.element.size) = back := List.drop_left' hlength
    rwa [hall, hdrop]
  · -- The parent stands before the element, where positions stay.
    obtain ⟨p, y, hparent, hlt, hy, hchild⟩ := exists_parent_of_ne_zero hi hx
    have hp : p < front.length := by omega
    have hp' : p < front'.length := by rwa [← hfront.length_eq]
    rw [hall, List.getElem?_append_left hp, List.getElem?_eq_getElem hp, Option.some.injEq] at hy
    subst hy
    obtain ⟨before, after, hchildren⟩ := exists_flatMap_spread (k := i + x.element.size)
      (n := r.size) hchild
    refine ⟨p, front'[p], before, after, hparent, ?_, ?_⟩
    · rw [hall', List.append_assoc, List.getElem?_append_left hp', List.getElem?_eq_getElem hp']
    · rw [← hchildren]
      exact (hfront'.get hp hp').children

end Entries

/-! ### Files of plans -/

/-- The file of a plan is read as one element, the wrapper. The elements in it are found in
contents, and none stands in an opening tag. -/
theorem exists_wrapper_ofPlan {palette : Palette}
    (himports : ∀ e ∈ palette.entries, e.importLine = none)
    (htags : ∀ e ∈ palette.entries, isTagName e.tag.toList = true) (directory : String)
    (p : BuildPlan) : ∃ el, scan (ComponentFile.ofPlan palette directory p).code.toList = .ok [el] ∧
      (∀ f ∈ Element.walkAll [el], f.TagClear) ∧ ∀ f ∈ Element.walkAll el.children,
        Situation.FindsInContent ⟨.script {} .between, []⟩ .start
          (ComponentFile.ofPlan palette directory p).code.toList f := by
  have hname := isWordChar_of_mem_name palette p
  have hnone := neededImports_eq_nil himports p
  obtain ⟨el, hscan, hread⟩ := exists_wrapper hnone hname (readable_viewOf htags p.root)
  rw [code_ofPlan]
  exact ⟨el, hscan, hread.clear, fun f hf => findsInContent_of_wrapper hnone hname hread hf⟩

end Jsx

namespace Patch

open Jsx (Element)

/-- An element is inserted after another one that was found in a content. -/
theorem applyTo_insertAfter {source locator : String} {el e : Element} (file code : String)
    (hscan : Jsx.scan source.toList = .ok [el])
    (hfind : Element.find? source.toList locator.toList [el] = some e) {front back : List Char}
    (hsource : source.toList = front ++ back) (hend : Text.byteLength front = e.stop) :
    Operation.applyTo source ⟨file, .element locator (.insertAfter code)⟩ =
      .ok (some (String.ofList (front ++ '\n' :: code.toList ++ back))) := by
  refine (Operation.applyTo_eq_ok_some_iff hscan hfind).2 ⟨_, rfl, ?_⟩
  rw [String.toList_ofList, Edit.applyTo, Edit.insertion, hsource, ← hend, Text.takeBytes_append,
    Text.dropBytes_append]

/-- In the file of a plan with the built-in palette, the text of one element is inserted after an
element inside the wrapper: the new text is a component file again, and its elements are the old
ones with those of the inserted text after the element and what is inside it. -/
theorem scan_insertAfter (directory : String) (p : BuildPlan) : ∃ es,
    Jsx.scan (Jsx.ComponentFile.ofPlan .builtin directory p).code.toList = .ok es ∧
    ∀ (file locator code : String) (i : Nat) (x : Element.Entry) (r : Element),
      (Element.entriesOfAll none 0 es)[i]? = some x → i ≠ 0 →
      Element.find? (Jsx.ComponentFile.ofPlan .builtin directory p).code.toList locator.toList es =
        some x.element →
      Jsx.scan code.toList = .ok [r] → r.start = 0 → r.stop = Text.byteLength code.toList →
      ∃ next es', Operation.applyTo (Jsx.ComponentFile.ofPlan .builtin directory p).code
          ⟨file, .element locator (.insertAfter code)⟩ = .ok (some next) ∧
        Jsx.scan next.toList = .ok es' ∧
        Jsx.InsertedAfter (Element.entriesOfAll none 0 es) (Element.entriesOfAll none 0 es') i x
          r := by
  obtain ⟨el, hscan, hclear, hfinds⟩ := Jsx.exists_wrapper_ofPlan Palette.importLine_builtin
    Palette.isTagName_builtin directory p
  refine ⟨[el], hscan, fun file locator code i x r hx hi hfind hr hstart hstop => ?_⟩
  -- The entry at 0 is the wrapper, so any other one is of an element inside it.
  have hmem : x.element ∈ Element.walkAll el.children := by
    cases i with
    | zero => exact absurd rfl hi
    | succ m =>
      rw [Element.entriesOfAll_cons, Element.entriesOfAll_nil, List.append_nil,
        List.getElem?_cons_succ] at hx
      rw [← Element.map_element_entriesOfAll (some 0) 1]
      exact List.mem_map_of_mem (List.mem_of_getElem? hx)
  obtain ⟨front, back, q, outer, fs, hsource, hreached, hfound, hend⟩ := hfinds x.element hmem
  rw [Jsx.Cursor.offset_after_start] at hend
  have happly := applyTo_insertAfter file code hscan hfind hsource hend
  have forest := Jsx.forest_of_scan hscan
  rw [hsource] at hscan
  obtain ⟨d, es', hdstart, hdstop, hadded, hkeep, hone, hscan', hkept⟩ :=
    Jsx.exists_kept_beside hreached hfound hend hr hstart hstop hscan
  refine ⟨_, es', happly, ?_, ?_⟩
  · rw [String.toList_ofList]
    exact hscan'
  · exact hkept.insertedAfter forest hx hi hdstart hdstop hadded hkeep hone hclear

/-! ### A case -/

/-- Every element holds an angle bracket. -/
theorem holds_angle {source : List Char} {e : Element} (h : e.Sound source) :
    Element.holds source ['<'] e = true := by
  have placed := h.placed
  have hlt := placed.start_lt
  have hle := placed.nameEnd_le
  have hle' := placed.openEnd_le
  have hangle : Text.byteLength ['<'] = 1 := rfl
  have hopening : Text.HasAt source e.start (['<'] ++ e.tag.toList) := h.opening
  have hboundary := hopening.left.isBoundary_stop
  rw [hangle] at hboundary
  rw [Element.holds, Text.contains_iff, ← placed.opens]
  exact Text.slice_infix placed.isBoundary_start hboundary placed.isBoundary_start
    placed.isBoundary_stop (Nat.le_refl _) (Nat.le_succ _) (by omega)

/-- A plan with one component. -/
def inputPlan : BuildPlan :=
  { name := "Login", root := { key := "form.input" } }

/-- In the file of that plan the wrapper holds one element without anything in it. -/
theorem exists_leaf_inputPlan : ∃ el e : Element,
    Jsx.scan (Jsx.ComponentFile.ofPlan .builtin "out" inputPlan).code.toList = .ok [el] ∧
      el.children = [e] ∧ e.children = [] := by
  obtain ⟨el, hscan, -, hshows⟩ := Jsx.exists_shows_ofPlan Palette.importLine_builtin
    Palette.isTagName_builtin "out" inputPlan
  obtain ⟨e, fs, hchildren, hfirst, hrest⟩ := Jsx.shows_viewOf_cons _ hshows
  cases hrest
  refine ⟨el, e, hscan, hchildren, ?_⟩
  rw [inputPlan, Jsx.viewOf] at hfirst
  split at hfirst
  · cases hfirst with
    | element _ _ inside _ =>
      generalize e.children = children at inside
      cases inside with
      | text inside =>
        cases inside
        rfl
  · cases hfirst with
    | element _ _ inside _ =>
      generalize e.children = children at inside
      cases inside
      rfl

/-- An element with text is inserted after the component of that plan. -/
theorem scan_insertAfter_input : ∃ es x r,
    Jsx.scan (Jsx.ComponentFile.ofPlan .builtin "out" inputPlan).code.toList = .ok es ∧
      (Element.entriesOfAll none 0 es)[1]? = some x ∧
      Element.find? (Jsx.ComponentFile.ofPlan .builtin "out" inputPlan).code.toList "<".toList es =
        some x.element ∧
      Jsx.scan "<p a>b<i/></p>".toList = .ok [r] ∧ r.start = 0 ∧
      r.stop = Text.byteLength "<p a>b<i/></p>".toList ∧
      ∃ next es', Operation.applyTo (Jsx.ComponentFile.ofPlan .builtin "out" inputPlan).code
          ⟨"f", .element "<" (.insertAfter "<p a>b<i/></p>")⟩ = .ok (some next) ∧
        Jsx.scan next.toList = .ok es' ∧
        Jsx.InsertedAfter (Element.entriesOfAll none 0 es) (Element.entriesOfAll none 0 es') 1 x
          r := by
  obtain ⟨es, hscan, hinsert⟩ := scan_insertAfter "out" inputPlan
  obtain ⟨el, e, hscan', hchildren, hleaf⟩ := exists_leaf_inputPlan
  obtain rfl : es = [el] := Except.ok.inj (hscan.symm.trans hscan')
  have hx : (Element.entriesOfAll none 0 [el])[1]? = some ⟨e, some 0, []⟩ := by
    simp [hchildren, hleaf, Element.positions]
  have hfind : Element.find? (Jsx.ComponentFile.ofPlan .builtin "out" inputPlan).code.toList
      "<".toList [el] = some e := by
    have forest := Jsx.forest_of_scan hscan
    have hel := holds_angle (forest.2 el (by simp))
    have he := holds_angle (forest.2 e (by simp [hchildren]))
    have hlocator : "<".toList = ['<'] := rfl
    rw [Element.find?, hlocator, Element.walkAll_cons, List.find?_cons_of_pos hel, Option.map_some,
      Element.narrow_eq, hchildren, Element.narrowIn, if_pos he, Element.narrow_eq, hleaf]
    rfl
  obtain ⟨r, hr, hstart, hstop⟩ : ∃ r, Jsx.scan "<p a>b<i/></p>".toList = .ok [r] ∧ r.start = 0 ∧
      r.stop = Text.byteLength "<p a>b<i/></p>".toList := ⟨_, rfl, rfl, rfl⟩
  exact ⟨[el], _, r, hscan, hx, hfind, hr, hstart, hstop,
    hinsert "f" "<" _ 1 _ r hx (by decide) hfind hr hstart hstop⟩

end Patch

end Mockup
