import Mockup.Proofs.Markup.Features
import Mockup.Proofs.Xml.Tags

/-!
# The attributes of what is read

An element that is read has the kept attributes of a tag of the text, under their local names. A tag
may write one local name twice, after different prefixes. Then the element answers with the value
that is written first, and its feature with the one that is written last.

* `tag.valuesOf name` — the values that a tag gives to a local name, in order.
* `tag.HasOnePrefix name` — all attributes of a tag with this local name have the same prefix.

## Main results

* `ofElement_agrees_iff_of_read`: for which names an element and its feature answer alike.
-/

namespace Mockup

namespace Xml

/-- The values that a tag gives to a local name, in order and whatever their prefixes. -/
def Tag.valuesOf (tag : Tag) (name : String) : List String :=
  Markup.valuesIn tag.localAttributes name

/-- The attributes of a tag with a local name all have the same prefix, or all have none. -/
def Tag.HasOnePrefix (tag : Tag) (name : String) : Prop :=
  ∀ a ∈ tag.attributes.attributes, ∀ b ∈ tag.attributes.attributes,
    a.name.name = name → b.name.name = name → a.name.qualifier = b.name.qualifier

/-- A tag writes a local name once if all its attributes with that name have the same prefix. -/
theorem Tag.IsTagOf.length_valuesOf_le {text : List Char} {tag : Tag} (h : tag.IsTagOf text)
    {name : String} (hone : tag.HasOnePrefix name) : (tag.valuesOf name).length ≤ 1 := by
  let called := tag.attributes.attributes.filter fun a => a.name.name == name
  have hlength : (tag.valuesOf name).length = called.length := by
    rw [valuesOf, Markup.valuesIn, localAttributes, List.length_map, List.filter_map,
      List.length_map]
    rfl
  have hnodup : (called.map RawAttribute.name).Nodup :=
    h.names.sublist (List.filter_sublist.map RawAttribute.name)
  have hcalled : ∀ a ∈ called, a ∈ tag.attributes.attributes ∧ a.name.name = name := by
    intro a ha
    simpa using List.mem_filter.1 ha
  rw [hlength]
  by_cases hnone : called = []
  · rw [hnone]
    exact Nat.zero_le 1
  obtain ⟨a, ha⟩ := List.exists_mem_of_ne_nil called hnone
  -- All of them have the name of the first one, prefix included, and no name stands twice.
  have hsame : ∀ x ∈ called.map RawAttribute.name, x = a.name := by
    intro x hx
    obtain ⟨b, hb, rfl⟩ := List.mem_map.1 hx
    obtain ⟨ha, haname⟩ := hcalled a ha
    obtain ⟨hb, hbname⟩ := hcalled b hb
    calc b.name = ⟨b.name.qualifier, b.name.name⟩ := rfl
      _ = ⟨a.name.qualifier, a.name.name⟩ := by
        rw [hone b hb a ha hbname haname, hbname, haname]
      _ = a.name := rfl
  rwa [List.eq_replicate_of_mem hsame, List.nodup_replicate, List.length_map] at hnodup

end Xml

namespace Markup

/-- What is left of attributes gives to a kept name all its values, and none to the others. -/
theorem valuesIn_pruneAttributes (attributes : List (String × String)) (name : String) :
    valuesIn (pruneAttributes attributes) name =
      if keptAttributes.contains name then valuesIn attributes name else [] := by
  rw [pruneAttributes, valuesIn, List.filter_filter]
  split
  · next hkept =>
    rw [valuesIn]
    congr 1
    refine List.filter_congr fun a _ => ?_
    by_cases ha : a.1 = name
    · simpa [ha] using hkept
    · simp [ha]
  · next hnot =>
    rw [List.map_eq_nil_iff, List.filter_eq_nil_iff]
    intro a _ ha
    obtain ⟨hname, hkept⟩ := Bool.and_eq_true_iff.1 ha
    rw [eq_of_beq hname] at hkept
    exact hnot hkept

/-- An element that is read has the kept attributes of a tag of the text. It and its feature answer
alike to the names that are not kept, and otherwise exactly if the tag gives the same value to the
name first and last. So they do if the attributes with this name do not differ in their prefixes. -/
theorem ofElement_agrees_iff_of_read {limits : Limits} {text : String} {root : Element}
    (h : Element.read limits text = .ok root) {e : Element} (he : e ∈ root.walk) :
    ∃ tag : Xml.Tag, tag.IsTagOf text.toList ∧ tag.name.name = e.name ∧
      e.attributes = pruneAttributes tag.localAttributes ∧
      (∀ name, (Feature.ofElement e).attribute? name = e.attribute? name ↔
        (keptAttributes.contains name = true →
          (tag.valuesOf name).head? = (tag.valuesOf name).getLast?)) ∧
      ∀ name, tag.HasOnePrefix name →
        (Feature.ofElement e).attribute? name = e.attribute? name := by
  obtain ⟨-, -, d, hd, hadmissible, rfl⟩ := read_eq_ok_iff.1 h
  obtain ⟨attributes, hholds, heq⟩ :=
    exists_holds_of_prune? _ _ (prune?_root hadmissible.root) e he
  obtain ⟨tag, htag, hname, rfl⟩ := Xml.Document.exists_tag_of_holds hd hholds
  -- The allow-list goes by names, so it keeps all values of a name or none.
  have hvalues (name : String) : e.valuesOf name =
      if keptAttributes.contains name then tag.valuesOf name else [] := by
    rw [Element.valuesOf, heq, valuesIn_pruneAttributes, Xml.Tag.valuesOf]
  have hagree (name : String) : (Feature.ofElement e).attribute? name = e.attribute? name ↔
      (keptAttributes.contains name = true →
        (tag.valuesOf name).head? = (tag.valuesOf name).getLast?) := by
    rw [Feature.attribute?_ofElement, Element.attribute?_eq_head?, hvalues]
    by_cases hkept : keptAttributes.contains name = true
    · rw [if_pos hkept]
      exact ⟨fun h _ => h.symm, fun h => (h hkept).symm⟩
    · rw [if_neg hkept]
      exact ⟨fun _ h => absurd h hkept, fun _ => rfl⟩
  refine ⟨tag, htag, hname, heq, hagree, fun name hone => (hagree name).2 fun _ => ?_⟩
  exact head?_eq_getLast?_of_length_le (htag.length_valuesOf_le hone)

/-- An image with two addresses, the second one after the prefix that needs no declaration. -/
def twoAddresses : String := "<svg><image x=\"1\" href=\"a\" xml:href=\"b\"/></svg>"

/-- The image answers with its first address, and its feature with the second one. -/
theorem answers_twoAddresses :
    ∃ root e, Element.read {} twoAddresses = .ok root ∧ e ∈ root.walk ∧
      e.attribute? "href" = some "a" ∧ (Feature.ofElement e).attribute? "href" = some "b" := by
  have hanswers : (Element.read {} twoAddresses).map (fun root => root.walk.map fun e =>
      (e.attribute? "href", (Feature.ofElement e).attribute? "href")) =
        .ok [(none, none), (some "a", some "b")] := by
    decide +kernel
  obtain ⟨root, hread, hwalk⟩ := map_eq_ok_iff.1 hanswers
  obtain ⟨e, he, hanswer⟩ := List.mem_map.1 (hwalk ▸ List.mem_cons_of_mem _ List.mem_cons_self :
    (some "a", some "b") ∈ root.walk.map _)
  obtain ⟨hfirst, hlast⟩ := Prod.mk.inj hanswer
  exact ⟨root, e, hread, he, hfirst, hlast⟩

/-- The tag of the image writes the address with different prefixes. -/
theorem ofElement_agrees_iff_of_read_twoAddresses :
    ∃ root e, Element.read {} twoAddresses = .ok root ∧ e ∈ root.walk ∧
      ∃ tag : Xml.Tag, tag.IsTagOf twoAddresses.toList ∧ tag.name.name = e.name ∧
        e.attributes = pruneAttributes tag.localAttributes ∧ ¬ tag.HasOnePrefix "href" ∧
        (tag.valuesOf "href").head? ≠ (tag.valuesOf "href").getLast? := by
  obtain ⟨root, e, hread, he, hfirst, hlast⟩ := answers_twoAddresses
  have hdiffer : (Feature.ofElement e).attribute? "href" ≠ e.attribute? "href" := by
    rw [hfirst, hlast]
    decide
  obtain ⟨tag, htag, hname, hattributes, hagree, hone⟩ := ofElement_agrees_iff_of_read hread he
  refine ⟨root, e, hread, he, tag, htag, hname, hattributes, fun h => hdiffer (hone _ h), ?_⟩
  exact fun h => hdiffer ((hagree _).2 fun _ => h)

/-- So an element that is read and its feature do not always answer alike. -/
theorem not_ofElement_agrees_twoAddresses :
    ¬ ∀ (limits : Limits) (text : String) (root : Element), Element.read limits text = .ok root →
      ∀ e ∈ root.walk, ∀ name, (Feature.ofElement e).attribute? name = e.attribute? name := by
  intro h
  obtain ⟨root, e, hread, he, hfirst, hlast⟩ := answers_twoAddresses
  have hsame := h {} twoAddresses root hread e he "href"
  rw [hfirst, hlast] at hsame
  revert hsame
  decide

end Markup

end Mockup
