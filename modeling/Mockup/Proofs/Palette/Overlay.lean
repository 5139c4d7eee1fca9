import Mockup.Palette.Catalog
import Mockup.Proofs.Plan.Binding
import Mockup.Proofs.Plan.Keys

/-!
# Catalogs laid over the built-in palette

A catalog replaces entries in their places and adds entries at the end, one after the other. What is
found under a key is the last entry of the catalog with that key, and otherwise the built-in one; so
no built-in key is ever lost.

* `index es` — the position of each key, noted entry by entry.
* `Overlaid catalog p` — `p` is the built-in palette with a catalog laid over it.

## Main results

* `find?_foldl_overlayEntry`, `keys_foldl_overlayEntry`: the entries after a catalog, and their
  order.
* `getElem?_index`: among different keys the index leads to the entry that is found by its key.
* `overlaid_of_ofCatalog`: a palette with a catalog laid over it, and the plans bound to it.
-/

namespace Mockup

namespace Palette

variable {es : List Entry} {e : Entry}

/-! ### Entries of a catalog -/

/-- An entry that is laid over others is found under its key, and hides no other key. -/
theorem find?_overlayEntry (e : Entry) (es : List Entry) (key : String) :
    (overlayEntry e es).find? (·.key == key) =
      if e.key = key then some e else es.find? (·.key == key) := by
  induction es with
  | nil =>
    by_cases h : e.key = key <;> simp [overlayEntry, h]
  | cons d ds ih =>
    unfold overlayEntry
    split
    · next hd =>
      by_cases h : e.key = key <;> simp [hd, h]
    · next hd =>
      by_cases hkey : d.key = key
      · have hne : e.key ≠ key := fun h => hd (hkey.trans h.symm)
        rw [if_neg hne, List.find?_cons_of_pos (by simpa using hkey),
          List.find?_cons_of_pos (by simpa using hkey)]
      · rw [List.find?_cons_of_neg (by simpa using hkey), ih,
          List.find?_cons_of_neg (by simpa using hkey)]

/-- An entry that is laid over others takes the place of its key, or a new one at the end. -/
theorem keys_overlayEntry (e : Entry) (es : List Entry) :
    (overlayEntry e es).map Entry.key =
      if e.key ∈ es.map Entry.key then es.map Entry.key else es.map Entry.key ++ [e.key] := by
  induction es with
  | nil => rfl
  | cons d ds ih =>
    unfold overlayEntry
    split
    · next hd => simp [hd]
    · next hd =>
      rw [List.map_cons, ih, List.map_cons]
      by_cases hmem : e.key ∈ ds.map Entry.key
      · rw [if_pos hmem, if_pos (List.mem_cons_of_mem _ hmem)]
      · rw [if_neg hmem, if_neg (by simpa [Ne.symm hd] using hmem), List.cons_append]

/-- Under a key the last entry of a catalog is found, and otherwise what was found before. -/
theorem find?_foldl_overlayEntry (catalog es : List Entry) (key : String) :
    (catalog.foldl (fun es e => overlayEntry e es) es).find? (·.key == key) =
      (catalog.reverse.find? (·.key == key)).or (es.find? (·.key == key)) := by
  induction catalog using List.reverseRecOn with
  | nil => rfl
  | append_singleton catalog e ih =>
    rw [List.foldl_append, List.foldl_cons, List.foldl_nil, find?_overlayEntry, ih,
      List.reverse_append, List.reverse_singleton, List.singleton_append]
    by_cases h : e.key = key
    · rw [if_pos h, List.find?_cons_of_pos (by simpa using h), Option.some_or]
    · rw [if_neg h, List.find?_cons_of_neg (by simpa using h)]

/-- The keys after a catalog are those before it and the new ones, in the order in which they come
first. -/
theorem keys_foldl_overlayEntry (catalog es : List Entry) :
    (catalog.foldl (fun es e => overlayEntry e es) es).map Entry.key =
      es.map Entry.key ++ ((catalog.map Entry.key).filter (· ∉ es.map Entry.key)).eraseDups := by
  induction catalog using List.reverseRecOn with
  | nil => exact (List.append_nil _).symm
  | append_singleton catalog e ih =>
    rw [List.foldl_append, List.foldl_cons, List.foldl_nil, keys_overlayEntry, ih, List.map_append,
      List.map_singleton, append_eraseDups_filter_concat]

/-! ### The index -/

/-- The position of each key, noted entry by entry. -/
def index (es : List Entry) : Std.HashMap String Nat :=
  es.zipIdx.foldl (fun noted x => noted.insert x.1.key x.2) ∅

theorem index_concat (es : List Entry) (e : Entry) :
    index (es ++ [e]) = (index es).insert e.key es.length := by
  rw [index, List.zipIdx_append, List.foldl_append]
  simp [index]

/-- Among different keys, the position of a key is that of its entry. -/
theorem getElem?_index (h : (es.map Entry.key).Nodup) (key : String) :
    (index es)[key]? = es.findIdx? (·.key == key) := by
  induction es using List.reverseRecOn with
  | nil => simp [index]
  | append_singleton es e ih =>
    rw [List.map_append, List.nodup_append] at h
    obtain ⟨hes, -, hdisjoint⟩ := h
    rw [index_concat, Std.HashMap.getElem?_insert, List.findIdx?_append, ih hes]
    by_cases hkey : e.key = key
    · have hnone : es.findIdx? (·.key == key) = none := by
        rw [List.findIdx?_eq_none_iff]
        intro d hd
        have hne := hdisjoint d.key (List.mem_map_of_mem hd) e.key (by simp)
        rw [hkey] at hne
        simpa using hne
      rw [hnone]
      simp [hkey]
    · simp [hkey]

/-- What a search finds is the item at the position that it finds. -/
theorem findIdx?_bind {α : Type} (q : α → Bool) (as : List α) :
    (as.findIdx? q).bind (fun i => as[i]?) = as.find? q := by
  induction as with
  | nil => rfl
  | cons a as ih =>
    rw [List.findIdx?_cons]
    by_cases h : q a = true
    · rw [if_pos h, List.find?_cons_of_pos h]
      rfl
    · rw [if_neg h, List.find?_cons_of_neg h, Option.bind_map, ← ih]
      rfl

/-- What is found under a key is the entry at the position of the key. -/
theorem index_bind (p : Palette) (key : String) :
    ((index p.entries)[key]?.bind fun i => p.entries[i]?) = p.lookup? key := by
  rw [getElem?_index p.nodup, findIdx?_bind, lookup?]

/-- A position is noted for the keys of the palette. -/
theorem contains_index (p : Palette) (key : String) :
    (index p.entries).contains key = p.contains key := by
  rw [Std.HashMap.contains_eq_isSome_getElem?, getElem?_index p.nodup, List.findIdx?_isSome,
    Bool.eq_iff_iff, contains, lookup?, List.find?_isSome, List.any_eq_true]

/-! ### The palette of a catalog -/

/-- A palette has a key exactly if the key is one of its keys. -/
theorem mem_keys_iff (p : Palette) (key : String) : key ∈ p.keys ↔ p.contains key = true := by
  rw [contains, lookup?, List.find?_isSome, keys, List.mem_map]
  simp

/-- The palette `p` is the built-in one with a catalog laid over it. -/
structure Overlaid (catalog : List Entry) (p : Palette) : Prop where
  /-- Every text that writes the catalog gives this palette. -/
  ofYaml_eq : ∀ text, catalogOf? text = some catalog → ofYaml text = .ok p
  /-- Under a key the last entry of the catalog is found, and otherwise the built-in one. -/
  lookup?_eq : ∀ key, p.lookup? key =
    (catalog.reverse.find? (·.key == key)).or (builtin.lookup? key)
  /-- It is the entry at the position that is noted for the key. -/
  index_eq : ∀ key, ((index p.entries)[key]?.bind fun i => p.entries[i]?) = p.lookup? key
  /-- The palette has the keys under which something is found. -/
  contains_iff : ∀ key, p.contains key = true ↔ (p.lookup? key).isSome = true
  /-- These are its keys. -/
  mem_keys_iff : ∀ key, key ∈ p.keys ↔ p.contains key = true
  /-- These are the keys for which a position is noted. -/
  index_contains : ∀ key, (index p.entries).contains key = p.contains key
  /-- No key is there twice. -/
  nodup : p.keys.Nodup
  /-- The built-in keys come first, in their order, and then the new ones as they come first. -/
  keys_eq : p.keys =
    builtin.keys ++ ((catalog.map Entry.key).filter (· ∉ builtin.keys)).eraseDups
  /-- The plan of a tree has no unknown keys. -/
  planned : ∀ (t : Ui.Tree) (name key : String),
    .unknownKey key ∉ (BuildPlan.ofTree p t name).warnings
  /-- Nor has the component file of that plan. -/
  emitted : ∀ (t : Ui.Tree) (name directory key : String), .unknownKey key ∉
    (Jsx.ComponentFile.ofPlan p directory (BuildPlan.ofTree p t name).plan).warnings

theorem entries_eq_of_ofEntries {es : List Entry} {p : Palette} (h : ofEntries es = .ok p) :
    p.entries = es := by
  unfold ofEntries at h
  split at h
  · cases h
    rfl
  · cases h

/-- A text gives a palette exactly if it writes a catalog that does. -/
theorem ofYaml_eq_ok_iff {text : String} {p : Palette} :
    ofYaml text = .ok p ↔
      ∃ catalog, catalogOf? text = some catalog ∧ ofCatalog catalog = .ok p := by
  unfold ofYaml
  cases catalogOf? text with
  | none => simp
  | some catalog =>
    simp only [Option.some.injEq, exists_eq_left']
    exact mapError_eq_ok_iff

/-- A palette that has all built-in keys knows the keys in the plan of every tree. -/
theorem unknownKey_not_mem_ofTree {p : Palette} (h : ∀ key ∈ builtin.keys, p.contains key = true)
    (t : Ui.Tree) (name : String) :
    (BuildPlan.ofTree p t name).warnings = [] := by
  have hknown : ∀ key ∈ (BuildPlan.sketch p t name).root.keys, p.contains key = true :=
    fun key hkey => h key (BuildPlan.keys_sketch p t name hkey)
  rw [BuildPlan.ofTree, BuildPlan.bind, List.map_eq_nil_iff, List.filter_eq_nil_iff]
  intro key hkey
  simp [hknown key hkey]

/-- What a catalog makes of the built-in palette, if it makes one. -/
theorem overlaid_of_ofCatalog {catalog : List Entry} {p : Palette}
    (h : ofCatalog catalog = .ok p) : Overlaid catalog p := by
  have hentries : p.entries = catalog.foldl (fun es e => overlayEntry e es) builtin.entries :=
    entries_eq_of_ofEntries h
  have hlookup (key : String) : p.lookup? key =
      (catalog.reverse.find? (·.key == key)).or (builtin.lookup? key) := by
    rw [lookup?, hentries, find?_foldl_overlayEntry, lookup?]
  have hkeys : p.keys =
      builtin.keys ++ ((catalog.map Entry.key).filter (· ∉ builtin.keys)).eraseDups := by
    rw [keys, hentries, keys_foldl_overlayEntry, keys]
  have hbuiltin : ∀ key ∈ builtin.keys, p.contains key = true := by
    intro key hkey
    rw [← mem_keys_iff, hkeys]
    exact List.mem_append_left _ hkey
  have hfallback : p.contains fallbackKey = true := hbuiltin _ (by decide +kernel)
  refine ⟨fun text htext => ofYaml_eq_ok_iff.2 ⟨catalog, htext, h⟩, hlookup, index_bind p,
    fun _ => Iff.rfl, mem_keys_iff p, contains_index p, p.nodup, hkeys, fun t name key => ?_,
    fun t name directory key => ?_⟩
  · rw [unknownKey_not_mem_ofTree hbuiltin]
    exact List.not_mem_nil
  · exact (BuildPlan.bound_bind hfallback directory (BuildPlan.sketch p t name)).resolved key

/-- A catalog with two entries for a built-in key and two for a new one. -/
def badgeCatalog : List Entry :=
  [{ key := "form.button", library := .shadcn, tag := "Button" }, { key := "ui.badge", tag := "b" },
    { key := "form.button", library := .mui, tag := "LoadingButton" },
    { key := "ui.badge", tag := "span" }]

/-- The later entries count, in the places of the earlier ones. -/
theorem overlaid_of_ofCatalog_badge : ∃ p, ofCatalog badgeCatalog = .ok p ∧
    Overlaid badgeCatalog p ∧ (p.lookup? "form.button").map Entry.tag = some "LoadingButton" ∧
    p.keys = builtin.keys ++ ["ui.badge"] :=
  ⟨_, rfl, overlaid_of_ofCatalog rfl, by decide +kernel, by decide +kernel⟩

end Palette

end Mockup
