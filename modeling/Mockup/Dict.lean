/-!
# Dictionaries in key order

`Dict α` maps texts to values and lists its entries by increasing key, so that two dictionaries
with the same entries are equal. Texts are compared character by character. The view of a
dictionary is `entries`; `get?` reads it, and `insert` and `erase` are stated through `get?`.
-/

namespace Mockup

variable {α β : Type}

/-- A finite map from texts to values, by increasing key. -/
structure Dict (α : Type) where
  /-- The entries by increasing key. -/
  entries : List (String × α)
  /-- Each key is smaller than all later ones. -/
  sorted : entries.Pairwise fun a b => a.1 < b.1

namespace Dict

/-- The entry list after giving `key` the value `value`. -/
def insertEntry (key : String) (value : α) : List (String × α) → List (String × α)
  | [] => [(key, value)]
  | e :: es =>
    if key < e.1 then (key, value) :: e :: es
    else if key = e.1 then (key, value) :: es
    else e :: insertEntry key value es

/-- The entries after an insertion are the inserted one and old ones. -/
theorem eq_or_mem_of_mem_insertEntry {key : String} {value : α} {es : List (String × α)}
    {e : String × α} (h : e ∈ insertEntry key value es) : e = (key, value) ∨ e ∈ es := by
  induction es with
  | nil => exact .inl (List.mem_singleton.1 h)
  | cons d ds ih =>
    unfold insertEntry at h
    split at h
    · exact List.mem_cons.1 h
    · split at h
      · exact (List.mem_cons.1 h).imp id (List.mem_cons_of_mem _)
      · rcases List.mem_cons.1 h with rfl | h
        · exact .inr List.mem_cons_self
        · exact (ih h).imp id (List.mem_cons_of_mem _)

/-- Insertion keeps the keys in order. -/
theorem sorted_insertEntry (key : String) (value : α) {es : List (String × α)}
    (hs : es.Pairwise fun a b => a.1 < b.1) :
    (insertEntry key value es).Pairwise fun a b => a.1 < b.1 := by
  induction es with
  | nil => simp [insertEntry]
  | cons d ds ih =>
    obtain ⟨hd, hds⟩ := List.pairwise_cons.1 hs
    unfold insertEntry
    split
    · next hlt =>
      refine List.pairwise_cons.2 ⟨fun e he => ?_, hs⟩
      rcases List.mem_cons.1 he with rfl | he
      · exact hlt
      · exact String.lt_trans hlt (hd e he)
    · next hlt =>
      split
      · next heq =>
        subst heq
        exact List.pairwise_cons.2 ⟨hd, hds⟩
      · next hne =>
        refine List.pairwise_cons.2 ⟨fun e he => ?_, ih hds⟩
        rcases eq_or_mem_of_mem_insertEntry he with rfl | h
        · exact Std.lt_of_le_of_ne (String.not_lt.1 hlt) (Ne.symm hne)
        · exact hd e h

/-- The dictionary without entries. -/
def empty : Dict α := ⟨[], .nil⟩

instance : Inhabited (Dict α) := ⟨empty⟩

/-- Gives `key` the value `value`, in place of an earlier one. -/
def insert (d : Dict α) (key : String) (value : α) : Dict α :=
  ⟨insertEntry key value d.entries, sorted_insertEntry key value d.sorted⟩

/-- The value of a key. -/
def get? (d : Dict α) (key : String) : Option α :=
  (d.entries.find? fun e => e.1 == key).map (·.2)

/-- Whether a key has a value. -/
def contains (d : Dict α) (key : String) : Bool :=
  (d.get? key).isSome

/-- The dictionary without the entry of `key`. -/
def erase (d : Dict α) (key : String) : Dict α :=
  ⟨d.entries.filter fun e => e.1 != key, d.sorted.filter _⟩

/-- The dictionary that a list of entries gives when they are inserted in turn: of entries with
one key the last counts. -/
def ofList (es : List (String × α)) : Dict α :=
  es.foldl (fun d e => d.insert e.1 e.2) empty

/-- `d` with all entries of `e` inserted. -/
def override (d e : Dict α) : Dict α :=
  e.entries.foldl (fun d e => d.insert e.1 e.2) d

/-- Dictionaries with the same entries are equal. -/
@[ext]
theorem ext {d e : Dict α} (h : d.entries = e.entries) : d = e := by
  cases d
  cases e
  simp_all

/-- The empty dictionary has no value for any key. -/
@[simp]
theorem get?_empty (key : String) : (empty : Dict α).get? key = none := rfl

/-- Reading after an insertion gives the inserted value at its key and the old value elsewhere. -/
theorem get?_insert (d : Dict α) (key k : String) (value : α) :
    (d.insert key value).get? k = if k = key then some value else d.get? k := by
  obtain ⟨es, hs⟩ := d
  simp only [get?, insert]
  induction es with
  | nil =>
    by_cases h : k = key
    · simp [insertEntry, h]
    · simp [insertEntry, h, Ne.symm h]
  | cons e es ih =>
    obtain ⟨he, hes⟩ := List.pairwise_cons.1 hs
    have ih := ih hes
    unfold insertEntry
    split
    · by_cases h : k = key
      · simp [h]
      · simp [h, List.find?_cons, Ne.symm h]
    · split
      · next heq =>
        by_cases h : k = key
        · simp [h]
        · have : (e.1 == k) = false := by
            rw [← heq]
            simpa using Ne.symm h
          simp [h, Ne.symm h, this]
      · next hne =>
        by_cases hk : e.1 = k
        · have : k ≠ key := fun h => hne (by rw [← h, hk])
          simp [this, hk]
        · have : (e.1 == k) = false := by simpa using hk
          simp only [List.find?_cons, this]
          exact ih

/-- Reading after an erasure gives nothing at the erased key and the old value elsewhere. -/
theorem get?_erase (d : Dict α) (key k : String) :
    (d.erase key).get? k = if k = key then none else d.get? k := by
  simp only [get?, erase, List.find?_filter]
  by_cases h : k = key
  · subst h
    simp
  · rw [if_neg h]
    congr 2
    funext e
    by_cases he : e.1 = k
    · simp [he, h]
    · simp [he]

/-- The dictionary of the entries of a dictionary is that dictionary. -/
theorem ofList_entries (d : Dict α) : ofList d.entries = d := by
  obtain ⟨es, hs⟩ := d
  suffices h : ∀ (front : Dict α) (back : List (String × α)),
      (∀ a ∈ front.entries, ∀ b ∈ back, a.1 < b.1) → (back.Pairwise fun a b => a.1 < b.1) →
      (back.foldl (fun d e => d.insert e.1 e.2) front).entries = front.entries ++ back by
    ext1
    simpa [ofList, empty] using h empty es (by simp [empty]) hs
  have last : ∀ (key : String) (value : α) (es : List (String × α)),
      (∀ a ∈ es, a.1 < key) → insertEntry key value es = es ++ [(key, value)] := by
    intro key value es hes
    induction es with
    | nil => rfl
    | cons e es ih =>
      have he := hes e (List.mem_cons_self ..)
      have hne : key ≠ e.1 := fun h => String.lt_irrefl key (by rw [← h] at he; exact he)
      simp [insertEntry, String.lt_asymm he, hne,
        ih fun a ha => hes a (List.mem_cons_of_mem _ ha)]
  intro front back
  induction back generalizing front with
  | nil => simp
  | cons b bs ih =>
    intro hlt hsorted
    obtain ⟨hb, hbs⟩ := List.pairwise_cons.1 hsorted
    rw [List.foldl_cons, ih]
    · simp [insert, last b.1 b.2 front.entries fun a ha => hlt a ha b (List.mem_cons_self ..)]
    · intro a ha c hc
      rcases eq_or_mem_of_mem_insertEntry ha with rfl | h
      · exact hb c hc
      · exact hlt a h c (List.mem_cons_of_mem _ hc)
    · exact hbs

/-! ### Entries -/

/-- A key has a value exactly if there is an entry for it. -/
theorem isSome_get?_iff {d : Dict α} {key : String} :
    (d.get? key).isSome = true ↔ key ∈ d.entries.map Prod.fst := by
  rw [get?, Option.isSome_map, List.find?_isSome, List.mem_map]
  constructor
  · rintro ⟨e, he, hkey⟩
    exact ⟨e, he, eq_of_beq hkey⟩
  · rintro ⟨e, he, rfl⟩
    exact ⟨e, he, beq_self_eq_true _⟩

/-- A key and a value are an entry exactly if reading the key gives the value. -/
theorem mem_entries_iff {d : Dict α} {key : String} {value : α} :
    (key, value) ∈ d.entries ↔ d.get? key = some value := by
  obtain ⟨es, hs⟩ := d
  change (key, value) ∈ es ↔ (es.find? fun e => e.1 == key).map (·.2) = some value
  constructor
  · intro h
    induction es with
    | nil => cases h
    | cons e es ih =>
      obtain ⟨he, hes⟩ := List.pairwise_cons.1 hs
      rcases List.mem_cons.1 h with rfl | h
      · simp
      · -- The key of the first entry is smaller, so the search goes on.
        have hne : e.1 ≠ key := fun heq => String.lt_irrefl key (heq ▸ he (key, value) h)
        rw [List.find?_cons_of_neg (by simpa using hne)]
        exact ih hes h
  · intro h
    obtain ⟨e, he, rfl⟩ := Option.map_eq_some_iff.1 h
    obtain rfl : e.1 = key := by simpa using List.find?_some he
    exact List.mem_of_find?_eq_some he

/-- Another value for a key that has one leaves the keys as they are. -/
theorem keys_insert {d : Dict α} {key : String} (h : (d.get? key).isSome = true) (value : α) :
    (d.insert key value).entries.map Prod.fst = d.entries.map Prod.fst := by
  rw [isSome_get?_iff] at h
  obtain ⟨es, hs⟩ := d
  change (insertEntry key value es).map Prod.fst = es.map Prod.fst
  change key ∈ es.map Prod.fst at h
  induction es with
  | nil => cases h
  | cons e es ih =>
    obtain ⟨he, hes⟩ := List.pairwise_cons.1 hs
    unfold insertEntry
    rcases List.mem_cons.1 h with rfl | h
    · rw [if_neg (String.lt_irrefl _), if_pos rfl, List.map_cons, List.map_cons]
    · obtain ⟨e', he', rfl⟩ := List.mem_map.1 h
      have hlt := he e' he'
      have hne : e'.1 ≠ e.1 := fun heq => String.lt_irrefl _ (heq ▸ hlt)
      rw [if_neg (String.lt_asymm hlt), if_neg hne, List.map_cons, List.map_cons, ih hes h]

/-- The entries of two dictionaries, one over the other, are entries of one of them. -/
theorem mem_or_mem_of_mem_override {d e : Dict α} {x : String × α}
    (h : x ∈ (d.override e).entries) : x ∈ d.entries ∨ x ∈ e.entries := by
  obtain ⟨es, hs⟩ := e
  change x ∈ (es.foldl (fun d e => d.insert e.1 e.2) d).entries at h
  change _ ∨ x ∈ es
  clear hs
  induction es generalizing d with
  | nil => exact .inl h
  | cons e es ih =>
    rcases ih h with h | h
    · rcases eq_or_mem_of_mem_insertEntry h with rfl | h
      · exact .inr List.mem_cons_self
      · exact .inl h
    · exact .inr (List.mem_cons_of_mem _ h)

/-- One dictionary over another has the values of both, its own first. -/
theorem get?_override (d e : Dict α) (key : String) :
    (d.override e).get? key = (e.get? key).or (d.get? key) := by
  obtain ⟨es, hs⟩ := e
  change (es.foldl (fun d e => d.insert e.1 e.2) d).get? key =
    ((es.find? fun e => e.1 == key).map (·.2)).or (d.get? key)
  induction es generalizing d with
  | nil => rfl
  | cons e es ih =>
    obtain ⟨he, hes⟩ := List.pairwise_cons.1 hs
    rw [List.foldl_cons, ih (d.insert e.1 e.2) hes, get?_insert]
    by_cases hkey : e.1 = key
    · -- The keys differ, so no later entry replaces this one.
      have hlater : es.find? (fun e => e.1 == key) = none := by
        rw [List.find?_eq_none]
        intro e' he' heq
        exact String.lt_irrefl key (by simpa [hkey, eq_of_beq heq] using he e' he')
      rw [hlater, List.find?_cons_of_pos (by simpa using hkey), if_pos hkey.symm]
      rfl
    · rw [List.find?_cons_of_neg (by simpa using hkey), if_neg (Ne.symm hkey)]

end Dict

end Mockup
