import Mockup.Markup.Sanitized
import Mockup.Proofs.Except

/-!
# What is left of a document

A document is read if and only if it holds nothing forbidden, kept or stripped, and what is left of
it is neither too deep nor too large. What is read is then exactly what is left.

* `d.root.Holds name attributes` — an element with this name and these attributes stands somewhere
  in the document, at any depth and also below an element that is stripped.
* `pruned d` — the document without stripped elements, stripped attributes, comments and blank
  texts.
* `Admissible limits d` — the conditions under which a document is read.

## Main results

* `inspectStripped_eq_ok_iff`: the walk over a stripped part sees every element in it.
* `convertChildren_eq_ok_iff`: the walk over a kept part sees every element in it, and keeps what is
  left.
* `read_eq_ok_iff`: a text is read exactly under these conditions.
* `Admissible.keptAddress`: the addresses in what is left are addresses of the document.
-/

namespace Mockup

namespace Xml

/-- An element with a name and attributes is a node or stands somewhere in it. -/
inductive Node.Holds (name : String) (attributes : List (String × String)) : Node → Prop
  | here {children : List Node} : Holds name attributes (.element name attributes children)
  | inside {outer : String} {outerAttributes : List (String × String)} {children : List Node}
    {n : Node} (hmem : n ∈ children) (h : n.Holds name attributes) :
    Holds name attributes (.element outer outerAttributes children)

end Xml

namespace Markup

open Xml (Node)

/-! ### Forbidden content -/

/-- Nothing about an element with this name and these attributes is forbidden. -/
def AllowedElement (name : String) (attributes : List (String × String)) : Prop :=
  (∃ v, checkElement name = .ok v) ∧ ∀ a ∈ attributes, ∃ v, checkAttribute name a.1 a.2 = .ok v

/-- No element in a node is forbidden, and no attribute of such an element. -/
def Allowed (n : Node) : Prop :=
  ∀ name attributes, n.Holds name attributes → AllowedElement name attributes

theorem allowed_element_iff {name : String} {attributes : List (String × String)}
    {children : List Node} :
    Allowed (.element name attributes children) ↔
      AllowedElement name attributes ∧ ∀ n ∈ children, Allowed n := by
  constructor
  · intro h
    exact ⟨h _ _ .here, fun n hn name attributes hholds => h _ _ (.inside hn hholds)⟩
  · rintro ⟨hself, hchildren⟩ name' attributes' hholds
    cases hholds with
    | here => exact hself
    | inside hmem hholds => exact hchildren _ hmem _ _ hholds

theorem allowed_of_no_element {n : Node} (h : ∀ name attributes, ¬ n.Holds name attributes) :
    Allowed n :=
  fun name attributes hholds => absurd hholds (h name attributes)

/-! ### What is left -/

/-- The attributes of the allow-list, in order. -/
def pruneAttributes (attributes : List (String × String)) : List (String × String) :=
  attributes.filter fun a => keptAttributes.contains a.1

theorem pruneAttributes_cons (a : String × String) (as : List (String × String)) :
    pruneAttributes (a :: as) =
      if keptAttributes.contains a.1 then a :: pruneAttributes as else pruneAttributes as :=
  List.filter_cons

mutual

/-- What is left of a node. -/
def prune? : Node → Option (Content Element)
  | .element name attributes children =>
    if keptElements.contains name then
      some (.node ⟨name, pruneAttributes attributes, pruneAll children⟩)
    else none
  | .text s => if Text.isAllBlank s then none else some (.text s)
  | .comment _ | .instruction _ => none

/-- What is left of several nodes, in order. -/
def pruneAll : List Node → List (Content Element)
  | [] => []
  | n :: ns => (prune? n).toList ++ pruneAll ns

end

/-- What is left of a document whose outermost element is kept. -/
def pruned (d : Xml.Document) : Element :=
  ⟨d.name, pruneAttributes d.attributes, pruneAll d.children⟩

theorem prune?_root {d : Xml.Document} (h : keptElements.contains d.name = true) :
    prune? d.root = some (.node (pruned d)) := by
  rw [Xml.Document.root, prune?, if_pos h, pruned]

namespace Element

mutual

/-- The number of levels of an element; an element without elements in it has one. -/
def depth : Element → Nat
  | ⟨_, _, children⟩ => depthIn children + 1

/-- The number of levels of the elements in a list of children. -/
def depthIn : List (Content Element) → Nat
  | [] => 0
  | .text _ :: cs => depthIn cs
  | .node e :: cs => max (depth e) (depthIn cs)

end

theorem depthIn_append (cs ds : List (Content Element)) :
    depthIn (cs ++ ds) = max (depthIn cs) (depthIn ds) := by
  induction cs with
  | nil => simp [depthIn]
  | cons c cs ih => cases c <;> simp [depthIn, ih, Nat.max_assoc]

theorem descendantsIn_append (cs ds : List (Content Element)) :
    descendantsIn (cs ++ ds) = descendantsIn cs ++ descendantsIn ds := by
  induction cs with
  | nil => rfl
  | cons c cs ih => cases c <;> simp [ih]

end Element

/-! ### Verdicts -/

theorem verdict_eq_of_checkElement {name : String} {v : Verdict} (h : checkElement name = .ok v) :
    v = if keptElements.contains name then .keep else .strip := by
  unfold checkElement at h
  split at h
  · cases h
  · split at h
    · next hkept => cases h; rw [if_pos hkept]
    · next hkept => cases h; rw [if_neg hkept]

theorem verdict_eq_of_checkAttribute {owner name value : String} {v : Verdict}
    (h : checkAttribute owner name value = .ok v) :
    v = if keptAttributes.contains name then .keep else .strip := by
  unfold checkAttribute at h
  simp only at h
  split at h
  · cases h
  · split at h
    · cases h
    · split at h
      · next hkept =>
        cases h
        rw [if_neg (by simpa using hkept)]
      · next hkept =>
        split at h
        · cases h
        · cases h
          rw [if_pos (by simpa using hkept)]

theorem inspectAttributes_eq_ok_iff {owner : String} {attributes : List (String × String)} :
    inspectAttributes owner attributes = .ok () ↔
      ∀ a ∈ attributes, ∃ v, checkAttribute owner a.1 a.2 = .ok v := by
  induction attributes with
  | nil => simp [inspectAttributes]
  | cons a as ih =>
    rw [inspectAttributes, bind_eq_ok_iff, List.forall_mem_cons, ← ih]
    exact ⟨fun ⟨v, hv, h⟩ => ⟨⟨v, hv⟩, h⟩, fun ⟨⟨v, hv⟩, h⟩ => ⟨v, hv, h⟩⟩

/-- The attributes of a kept element are all looked at, and those of the allow-list are kept. -/
theorem convertAttributes_eq_ok_iff {owner : String} {attributes kept : List (String × String)} :
    convertAttributes owner attributes = .ok kept ↔
      (∀ a ∈ attributes, ∃ v, checkAttribute owner a.1 a.2 = .ok v) ∧
        kept = pruneAttributes attributes := by
  induction attributes generalizing kept with
  | nil => simp [convertAttributes, pruneAttributes, eq_comm]
  | cons a as ih =>
    rw [convertAttributes, bind_eq_ok_iff, List.forall_mem_cons, pruneAttributes_cons]
    constructor
    · rintro ⟨v, hv, h⟩
      obtain ⟨rest, hrest, h⟩ := bind_eq_ok_iff.1 h
      obtain ⟨hall, rfl⟩ := ih.1 hrest
      refine ⟨⟨⟨v, hv⟩, hall⟩, ?_⟩
      -- The verdict on an attribute decides whether it is kept; it is looked at in either case.
      rw [verdict_eq_of_checkAttribute hv] at h
      by_cases hkept : keptAttributes.contains a.1
      · rw [if_pos hkept] at h ⊢
        exact (Except.ok.inj h).symm
      · rw [if_neg hkept] at h ⊢
        exact (Except.ok.inj h).symm
    · rintro ⟨⟨⟨v, hv⟩, hall⟩, rfl⟩
      refine ⟨v, hv, bind_eq_ok_iff.2 ⟨_, ih.2 ⟨hall, rfl⟩, ?_⟩⟩
      rw [verdict_eq_of_checkAttribute hv]
      by_cases hkept : keptAttributes.contains a.1
      · rw [if_pos hkept, if_pos hkept]
        rfl
      · rw [if_neg hkept, if_neg hkept]
        rfl

/-! ### Stripped parts -/

mutual

/-- A stripped part passes exactly if nothing in it is forbidden. -/
theorem inspectStripped_eq_ok_iff : ∀ n : Node, inspectStripped n = .ok () ↔ Allowed n
  | .element name attributes children => by
    rw [inspectStripped, allowed_element_iff, AllowedElement, ← inspectAllStripped_eq_ok_iff,
      ← inspectAttributes_eq_ok_iff, bind_eq_ok_iff]
    constructor
    · rintro ⟨v, hv, h⟩
      obtain ⟨_, hattributes, hchildren⟩ := bind_eq_ok_iff.1 h
      exact ⟨⟨⟨v, hv⟩, hattributes⟩, hchildren⟩
    · rintro ⟨⟨⟨v, hv⟩, hattributes⟩, hchildren⟩
      exact ⟨v, hv, bind_eq_ok_iff.2 ⟨(), hattributes, hchildren⟩⟩
  | .text s => iff_of_true rfl (allowed_of_no_element (by rintro _ _ ⟨⟩))
  | .comment s => iff_of_true rfl (allowed_of_no_element (by rintro _ _ ⟨⟩))
  | .instruction s => iff_of_true rfl (allowed_of_no_element (by rintro _ _ ⟨⟩))

theorem inspectAllStripped_eq_ok_iff :
    ∀ ns : List Node, inspectAllStripped ns = .ok () ↔ ∀ n ∈ ns, Allowed n
  | [] => by simp [inspectAllStripped]
  | n :: ns => by
    rw [inspectAllStripped, bind_eq_ok_iff, List.forall_mem_cons, ← inspectStripped_eq_ok_iff n,
      ← inspectAllStripped_eq_ok_iff ns]
    constructor
    · rintro ⟨_, hn, hns⟩
      exact ⟨hn, hns⟩
    · rintro ⟨hn, hns⟩
      exact ⟨(), hn, hns⟩

end

/-! ### Kept parts -/

/-- Elements that are kept at a depth, after `count` kept elements, fit the limits. -/
structure Fits (limits : Limits) (depth count : Nat) (cs : List (Content Element)) : Prop where
  depth : depth + Element.depthIn cs ≤ limits.maxDepth + 1
  count : count + (Element.descendantsIn cs).length ≤ limits.maxElements

section Kept

variable {limits : Limits} {depth count : Nat}

theorem fits_nil (hdepth : depth ≤ limits.maxDepth + 1) (hcount : count ≤ limits.maxElements) :
    Fits limits depth count [] :=
  ⟨hdepth, hcount⟩

/-- A list of children fits exactly if its first part does and its second one does after it. -/
theorem fits_append_iff {cs ds : List (Content Element)} :
    Fits limits depth count (cs ++ ds) ↔ Fits limits depth count cs ∧
      Fits limits depth (count + (Element.descendantsIn cs).length) ds := by
  constructor
  · rintro ⟨hdepth, hcount⟩
    rw [Element.depthIn_append] at hdepth
    rw [Element.descendantsIn_append, List.length_append] at hcount
    exact ⟨⟨by omega, by omega⟩, ⟨by omega, by omega⟩⟩
  · rintro ⟨⟨hdepth, -⟩, hdepth', hcount⟩
    refine ⟨?_, ?_⟩
    · rw [Element.depthIn_append]
      omega
    · rw [Element.descendantsIn_append, List.length_append]
      omega

/-- An element fits exactly if it may be counted and what is in it fits below it. -/
theorem fits_node_iff {name : String} {attributes : List (String × String)}
    {children : List (Content Element)} :
    Fits limits depth count [.node ⟨name, attributes, children⟩] ↔
      depth ≤ limits.maxDepth ∧ count + 1 ≤ limits.maxElements ∧
        Fits limits (depth + 1) (count + 1) children := by
  constructor
  · rintro ⟨hdepth, hcount⟩
    simp [Element.depthIn, Element.depth] at hdepth
    simp [Element.descendants] at hcount
    exact ⟨by omega, by omega, by omega, by omega⟩
  · rintro ⟨-, -, hdepth, hcount⟩
    refine ⟨?_, ?_⟩
    · simp [Element.depthIn, Element.depth]
      omega
    · simp [Element.descendants]
      omega

/-- A kept element is read exactly if its attributes and what is in it are, and it fits. -/
theorem convertElement_eq_ok_iff {name : String} {attributes : List (String × String)}
    {children : List Node} {inside : Nat → Except Refusal (List (Content Element) × Nat)}
    (hinside : depth ≤ limits.maxDepth → count + 1 ≤ limits.maxElements → ∀ cs m,
      inside (count + 1) = .ok (cs, m) ↔ (∀ n ∈ children, Allowed n) ∧ cs = pruneAll children ∧
        Fits limits (depth + 1) (count + 1) cs ∧
        m = count + 1 + (Element.descendantsIn cs).length)
    {e : Element} {m : Nat} :
    convertElement limits depth count name attributes inside = .ok (e, m) ↔
      (∀ a ∈ attributes, ∃ v, checkAttribute name a.1 a.2 = .ok v) ∧
        (∀ n ∈ children, Allowed n) ∧
        e = ⟨name, pruneAttributes attributes, pruneAll children⟩ ∧
        Fits limits depth count [.node e] ∧
        m = count + (Element.descendantsIn [.node e]).length := by
  have hlength (cs : List (Content Element)) : count +
      (Element.descendantsIn [.node ⟨name, pruneAttributes attributes, cs⟩]).length =
        count + 1 + (Element.descendantsIn cs).length := by
    simp [Element.descendants]
    omega
  unfold convertElement
  -- An element beyond a limit is refused before what is in it is read, and it does not fit.
  by_cases hdeep : limits.maxDepth < depth
  · rw [if_pos hdeep]
    constructor
    · intro h
      cases h
    · rintro ⟨-, -, rfl, hfits, -⟩
      have := (fits_node_iff.1 hfits).1
      omega
  rw [if_neg hdeep]
  by_cases hmany : limits.maxElements < count + 1
  · rw [if_pos hmany]
    constructor
    · intro h
      cases h
    · rintro ⟨-, -, rfl, hfits, -⟩
      have := (fits_node_iff.1 hfits).2.1
      omega
  rw [if_neg hmany, bind_eq_ok_iff]
  have hinside := hinside (Nat.le_of_not_lt hdeep) (Nat.le_of_not_lt hmany)
  constructor
  · rintro ⟨kept, hkept, h⟩
    obtain ⟨hattributes, rfl⟩ := convertAttributes_eq_ok_iff.1 (mapError_eq_ok_iff.1 hkept)
    obtain ⟨⟨cs, m'⟩, hcs, h⟩ := bind_eq_ok_iff.1 h
    obtain ⟨hchildren, rfl, hfits, rfl⟩ := (hinside _ _).1 hcs
    cases h
    refine ⟨hattributes, hchildren, rfl, fits_node_iff.2 ⟨?_, ?_, hfits⟩, (hlength _).symm⟩
    · exact Nat.le_of_not_lt hdeep
    · exact Nat.le_of_not_lt hmany
  · rintro ⟨hattributes, hchildren, rfl, hfits, rfl⟩
    have hkept := convertAttributes_eq_ok_iff.2 ⟨hattributes, rfl⟩
    have hcs := (hinside _ _).2 ⟨hchildren, rfl, (fits_node_iff.1 hfits).2.2, rfl⟩
    refine ⟨_, mapError_eq_ok_iff.2 hkept, bind_eq_ok_iff.2 ⟨_, hcs, ?_⟩⟩
    rw [hlength]
    rfl

/-- A node without elements is read as what is left of it, and counts for nothing. -/
theorem convertNode_leaf_iff {n : Node} (hallowed : Allowed n)
    (hread : convertNode limits depth count n = .ok (prune? n, count))
    (hfits : Fits limits depth count (prune? n).toList)
    (hlength : (Element.descendantsIn (prune? n).toList).length = 0)
    {c : Option (Content Element)} {m : Nat} :
    convertNode limits depth count n = .ok (c, m) ↔ Allowed n ∧ c = prune? n ∧
      Fits limits depth count c.toList ∧ m = count + (Element.descendantsIn c.toList).length := by
  rw [hread]
  constructor
  · intro h
    cases h
    exact ⟨hallowed, rfl, hfits, by rw [hlength, Nat.add_zero]⟩
  · rintro ⟨-, rfl, -, rfl⟩
    rw [hlength, Nat.add_zero]

mutual

/-- A node in a kept element is read exactly if nothing in it is forbidden and what is left of it
fits. Then what is left of it is what is read, and its elements are counted. -/
theorem convertNode_eq_ok_iff {depth count : Nat} (hdepth : depth ≤ limits.maxDepth + 1)
    (hcount : count ≤ limits.maxElements) : ∀ (n : Node) (c : Option (Content Element)) (m : Nat),
      convertNode limits depth count n = .ok (c, m) ↔ Allowed n ∧ c = prune? n ∧
        Fits limits depth count c.toList ∧ m = count + (Element.descendantsIn c.toList).length
  | .element name attributes children, c, m => by
    -- The children are read one level deeper, after the elements that were counted before.
    have helement := @convertElement_eq_ok_iff limits depth count name attributes children
      (fun count => convertChildren limits (depth + 1) count children)
      fun hle hlt => convertChildren_eq_ok_iff (Nat.succ_le_succ hle) hlt children
    rw [convertNode, bind_eq_ok_iff, allowed_element_iff, AllowedElement, prune?]
    constructor
    · rintro ⟨v, hv, h⟩
      have hname := mapError_eq_ok_iff.1 hv
      rw [verdict_eq_of_checkElement hname] at h
      -- A kept element is converted, and a stripped one is only looked through.
      by_cases hkept : keptElements.contains name
      · rw [if_pos hkept] at h
        obtain ⟨⟨e, m'⟩, he, h⟩ := bind_eq_ok_iff.1 h
        obtain ⟨hattributes, hchildren, rfl, hfits, rfl⟩ := helement.1 he
        cases h
        exact ⟨⟨⟨⟨v, hname⟩, hattributes⟩, hchildren⟩, (if_pos hkept).symm, hfits, rfl⟩
      · rw [if_neg hkept] at h
        obtain ⟨_, hstripped, h⟩ := bind_eq_ok_iff.1 h
        have hallowed := (inspectStripped_eq_ok_iff _).1 (mapError_eq_ok_iff.1 hstripped)
        cases h
        exact ⟨allowed_element_iff.1 hallowed, (if_neg hkept).symm, fits_nil hdepth hcount, rfl⟩
    · rintro ⟨⟨⟨⟨v, hname⟩, hattributes⟩, hchildren⟩, rfl, hfits, rfl⟩
      refine ⟨v, mapError_eq_ok_iff.2 hname, ?_⟩
      rw [verdict_eq_of_checkElement hname]
      by_cases hkept : keptElements.contains name
      · rw [if_pos hkept] at hfits ⊢
        rw [if_pos hkept]
        have he := helement.2 ⟨hattributes, hchildren, rfl, hfits, rfl⟩
        exact bind_eq_ok_iff.2 ⟨_, he, rfl⟩
      · rw [if_neg hkept, if_neg hkept]
        have hallowed := allowed_element_iff.2 ⟨⟨⟨v, hname⟩, hattributes⟩, hchildren⟩
        have hstripped := (inspectStripped_eq_ok_iff _).2 hallowed
        exact bind_eq_ok_iff.2 ⟨(), mapError_eq_ok_iff.2 hstripped, rfl⟩
  | .text s, c, m => by
    have hread : convertNode limits depth count (.text s) = .ok (prune? (.text s), count) := rfl
    refine convertNode_leaf_iff (allowed_of_no_element (by rintro _ _ ⟨⟩)) hread ?_ ?_
    · rw [prune?]
      split <;> exact ⟨hdepth, hcount⟩
    · rw [prune?]
      split <;> rfl
  | .comment s, c, m =>
    convertNode_leaf_iff (allowed_of_no_element (by rintro _ _ ⟨⟩)) rfl ⟨hdepth, hcount⟩ rfl
  | .instruction s, c, m =>
    convertNode_leaf_iff (allowed_of_no_element (by rintro _ _ ⟨⟩)) rfl ⟨hdepth, hcount⟩ rfl

theorem convertChildren_eq_ok_iff {depth count : Nat} (hdepth : depth ≤ limits.maxDepth + 1)
    (hcount : count ≤ limits.maxElements) : ∀ (ns : List Node) (cs : List (Content Element))
      (m : Nat), convertChildren limits depth count ns = .ok (cs, m) ↔
        (∀ n ∈ ns, Allowed n) ∧ cs = pruneAll ns ∧ Fits limits depth count cs ∧
          m = count + (Element.descendantsIn cs).length
  | [], cs, m => by
    rw [convertChildren, pruneAll]
    constructor
    · intro h
      cases h
      exact ⟨by simp, rfl, fits_nil hdepth hcount, rfl⟩
    · rintro ⟨-, rfl, -, rfl⟩
      rfl
  | n :: ns, cs, m => by
    -- The first node is read after `count` elements, and the others after those in it as well.
    rw [convertChildren, pruneAll, bind_eq_ok_iff, List.forall_mem_cons]
    constructor
    · rintro ⟨⟨c, m'⟩, hn, h⟩
      obtain ⟨hallowed, rfl, hfits, rfl⟩ := (convertNode_eq_ok_iff hdepth hcount n _ _).1 hn
      obtain ⟨⟨ds, m'⟩, hns, h⟩ := bind_eq_ok_iff.1 h
      obtain ⟨hall, rfl, hfits', rfl⟩ :=
        (convertChildren_eq_ok_iff hdepth hfits.count ns _ _).1 hns
      cases h
      refine ⟨⟨hallowed, hall⟩, rfl, fits_append_iff.2 ⟨hfits, hfits'⟩, ?_⟩
      rw [Element.descendantsIn_append, List.length_append, Nat.add_assoc]
    · rintro ⟨⟨hallowed, hall⟩, rfl, hfits, rfl⟩
      obtain ⟨hfits, hfits'⟩ := fits_append_iff.1 hfits
      have hn := (convertNode_eq_ok_iff hdepth hcount n _ _).2 ⟨hallowed, rfl, hfits, rfl⟩
      have hns := (convertChildren_eq_ok_iff hdepth hfits.count ns _ _).2
        ⟨hall, rfl, hfits', rfl⟩
      refine ⟨_, hn, bind_eq_ok_iff.2 ⟨_, hns, ?_⟩⟩
      rw [Element.descendantsIn_append, List.length_append, Nat.add_assoc]
      rfl

end

end Kept

/-! ### Documents -/

/-- The conditions under which a document is read. -/
structure Admissible (limits : Limits) (d : Xml.Document) : Prop where
  /-- The outermost element is kept. -/
  root : keptElements.contains d.name = true
  /-- No element is forbidden, kept or stripped. -/
  elements : ∀ name attributes, d.root.Holds name attributes → ∃ v, checkElement name = .ok v
  /-- No attribute is rejected, of a kept element or of a stripped one. -/
  attributes : ∀ name attributes, d.root.Holds name attributes → ∀ a ∈ attributes,
    ∃ v, checkAttribute name a.1 a.2 = .ok v
  /-- What is left is not too deep. -/
  depth : (pruned d).depth ≤ limits.maxDepth
  /-- What is left is not too large. -/
  count : (pruned d).walk.length ≤ limits.maxElements

/-- An outermost element fits exactly if it is neither too deep nor too large. -/
theorem fits_root_iff {limits : Limits} {e : Element} : Fits limits 1 0 [.node e] ↔
    e.depth ≤ limits.maxDepth ∧ e.walk.length ≤ limits.maxElements := by
  constructor
  · rintro ⟨hdepth, hcount⟩
    simp only [Element.depthIn] at hdepth
    simp only [Element.descendantsIn_node, Element.descendantsIn_nil, List.append_nil,
      Nat.zero_add] at hcount
    exact ⟨by omega, hcount⟩
  · rintro ⟨hdepth, hcount⟩
    refine ⟨?_, ?_⟩
    · simp only [Element.depthIn]
      omega
    · simpa [Element.walk] using hcount

/-- A document is read exactly if it is admissible, and then as what is left of it. -/
theorem ofDocument_eq_ok_iff {limits : Limits} {d : Xml.Document} {e : Element} :
    Element.ofDocument limits d = .ok e ↔ Admissible limits d ∧ e = pruned d := by
  have helement := @convertElement_eq_ok_iff limits 1 0 d.name d.attributes d.children
    (fun count => convertChildren limits 2 count d.children)
    fun hle hlt => convertChildren_eq_ok_iff (Nat.succ_le_succ hle) hlt d.children
  rw [Element.ofDocument, bind_eq_ok_iff]
  constructor
  · rintro ⟨v, hv, h⟩
    -- Of the three verdicts on the outermost element only one lets the document be read.
    have hname := mapError_eq_ok_iff.1 hv
    rw [verdict_eq_of_checkElement hname] at h
    by_cases hkept : keptElements.contains d.name
    · rw [if_pos hkept] at h
      obtain ⟨⟨e', m⟩, he, h⟩ := bind_eq_ok_iff.1 h
      obtain ⟨hattributes, hchildren, rfl, hroot, rfl⟩ := helement.1 he
      cases h
      have hallowed : Allowed d.root := allowed_element_iff.2 ⟨⟨⟨v, hname⟩, hattributes⟩, hchildren⟩
      obtain ⟨hdepth, hcount⟩ := fits_root_iff.1 hroot
      exact ⟨⟨hkept, fun _ _ hholds => (hallowed _ _ hholds).1,
        fun _ _ hholds => (hallowed _ _ hholds).2, hdepth, hcount⟩, rfl⟩
    · rw [if_neg hkept] at h
      cases h
  · rintro ⟨h, rfl⟩
    have hallowed : Allowed d.root :=
      fun name attributes hholds => ⟨h.elements _ _ hholds, h.attributes _ _ hholds⟩
    obtain ⟨⟨⟨v, hname⟩, hattributes⟩, hchildren⟩ := allowed_element_iff.1 hallowed
    refine ⟨v, mapError_eq_ok_iff.2 hname, ?_⟩
    rw [verdict_eq_of_checkElement hname, if_pos h.root]
    have hroot := fits_root_iff.2 ⟨h.depth, h.count⟩
    have he := helement.2 ⟨hattributes, hchildren, rfl, hroot, rfl⟩
    exact bind_eq_ok_iff.2 ⟨_, he, rfl⟩

/-- A text is read as the document that it writes if it is neither too long nor blank. -/
theorem read_eq_ok_iff_ofDocument {limits : Limits} {text : String} {e : Element} :
    Element.read limits text = .ok e ↔
      Text.byteLength text.toList ≤ limits.maxMarkupBytes ∧ Text.isAllBlank text = false ∧
        ∃ d, Xml.Document.read text = .ok d ∧ Element.ofDocument limits d = .ok e := by
  unfold Element.read
  -- The two refusals come before the text is read at all.
  by_cases hlong : limits.maxMarkupBytes < Text.byteLength text.toList
  · rw [if_pos hlong]
    constructor
    · intro h
      cases h
    · rintro ⟨hbytes, -⟩
      omega
  rw [if_neg hlong]
  by_cases hblank : Text.isAllBlank text
  · rw [if_pos hblank]
    constructor
    · intro h
      cases h
    · rintro ⟨-, hnot, -⟩
      rw [hblank] at hnot
      cases hnot
  rw [if_neg hblank, bind_eq_ok_iff]
  constructor
  · rintro ⟨d, hd, h⟩
    exact ⟨Nat.le_of_not_lt hlong, by simpa using hblank, d, mapError_eq_ok_iff.1 hd, h⟩
  · rintro ⟨-, -, d, hd, h⟩
    exact ⟨d, mapError_eq_ok_iff.2 hd, h⟩

/-- A text that is neither too long nor blank is read exactly if it writes an admissible document,
and then as what is left of that document. -/
theorem read_eq_ok_iff {limits : Limits} {text : String} {e : Element} :
    Element.read limits text = .ok e ↔
      Text.byteLength text.toList ≤ limits.maxMarkupBytes ∧ Text.isAllBlank text = false ∧
        ∃ d, Xml.Document.read text = .ok d ∧ Admissible limits d ∧ e = pruned d := by
  simp only [read_eq_ok_iff_ofDocument, ofDocument_eq_ok_iff]

/-! ### Where elements come from -/

mutual

/-- An element that is left of a node stands in the node, with further attributes. -/
theorem exists_holds_of_prune? : ∀ (n : Node) (e : Element), prune? n = some (.node e) →
    ∀ x ∈ e.walk, ∃ attributes, n.Holds x.name attributes ∧
      x.attributes = pruneAttributes attributes
  | .element name attributes children, e, h, x, hx => by
    rw [prune?] at h
    split at h
    · cases h
      rcases List.mem_cons.1 hx with rfl | hx
      · exact ⟨attributes, .here, rfl⟩
      · obtain ⟨n, hn, attributes', hholds, heq⟩ := exists_holds_of_pruneAll children x hx
        exact ⟨attributes', .inside hn hholds, heq⟩
    · cases h
  | .text s, e, h, x, hx => by
    rw [prune?] at h
    split at h <;> cases h
  | .comment s, e, h, x, hx => by cases h
  | .instruction s, e, h, x, hx => by cases h

theorem exists_holds_of_pruneAll : ∀ (ns : List Node),
    ∀ x ∈ Element.descendantsIn (pruneAll ns), ∃ n ∈ ns, ∃ attributes, n.Holds x.name attributes ∧
      x.attributes = pruneAttributes attributes
  | [], x, hx => by cases hx
  | n :: ns, x, hx => by
    rw [pruneAll, Element.descendantsIn_append] at hx
    rcases List.mem_append.1 hx with hx | hx
    · -- What is left of the first node is nothing, a text or an element.
      cases hprune : prune? n with
      | none =>
        rw [hprune] at hx
        cases hx
      | some c =>
        rw [hprune] at hx
        cases c with
        | text s => cases hx
        | node e =>
          simp only [Option.toList_some, Element.descendantsIn_node, Element.descendantsIn_nil,
            List.append_nil] at hx
          exact ⟨n, List.mem_cons_self, exists_holds_of_prune? n e hprune x hx⟩
    · obtain ⟨n', hn', h⟩ := exists_holds_of_pruneAll ns x hx
      exact ⟨n', List.mem_cons_of_mem _ hn', h⟩

end

/-- A text is an address in a document that is kept, and stands in the document as it is. -/
def KeptAddress (d : Xml.Document) (address : String) : Prop :=
  ∃ name attributes, d.root.Holds name attributes ∧ ("href", address) ∈ attributes ∧
    checkAttribute name "href" address = .ok .keep

/-- Every address in what is left of an admissible document is one that is kept. -/
theorem Admissible.keptAddress {limits : Limits} {d : Xml.Document} (h : Admissible limits d) :
    ∀ x ∈ (pruned d).walk, ∀ a ∈ x.attribute? "href", KeptAddress d a := by
  intro x hx a ha
  obtain ⟨attributes, hholds, heq⟩ := exists_holds_of_prune? _ _ (prune?_root h.root) x hx
  obtain ⟨⟨name, value⟩, hfind, rfl⟩ := Option.map_eq_some_iff.1 ha
  obtain rfl : name = "href" := by simpa using List.find?_some hfind
  have hmem : ("href", value) ∈ attributes := by
    have hleft := List.mem_of_find?_eq_some hfind
    rw [heq] at hleft
    exact (List.mem_filter.1 hleft).1
  obtain ⟨v, hv⟩ := h.attributes _ _ hholds _ hmem
  have hkeep : v = .keep := (verdict_eq_of_checkAttribute hv).trans (if_pos rfl)
  exact ⟨x.name, attributes, hholds, hmem, hkeep ▸ hv⟩

end Markup

end Mockup
