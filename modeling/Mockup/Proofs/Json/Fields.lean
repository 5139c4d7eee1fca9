import Mathlib.Data.List.Induction
import Mockup.Json.Decode
import Mockup.Proofs.Except

/-!
# Fields of written objects

An object that was written and put into key order is decoded field by field: a field that is always
written is found, and one that is written only if it has a value is found in just that case. The
decoders below are those of `Mockup.Json.Decode`; what they read is the value that was encoded.

* `m.Reads fields a` — the members `m` of a structure give `a` for the fields of an object.

## Main results

* `find?_inOrder`, `get?_sorted`: putting the fields into key order loses none of them.
* `Members.Reads.map`, `Members.Reads.seq`: fields are read on their own and put together.
* `Members.reads_required`, `Members.reads_nullable`: a field is decoded as what was encoded.
* `asStruct_object`, `asTagged_inOrder`: an object is decoded as what its fields give.
* `asList_sorted`: a sequence is decoded item by item.
* `asDict_sorted`: a dictionary of values in key order is decoded as it is.
-/

namespace Mockup

/-! ### Dictionaries of lists -/

/-- Of entries with one key the last counts. -/
theorem Dict.get?_ofList {α : Type} (es : List (String × α)) (key : String) :
    (Dict.ofList es).get? key = (es.reverse.find? fun e => e.1 == key).map (·.2) := by
  induction es using List.reverseRecOn with
  | nil => rfl
  | append_singleton es e ih =>
    have hfold : Dict.ofList (es ++ [e]) = (Dict.ofList es).insert e.1 e.2 := by
      simp [Dict.ofList]
    rw [hfold, Dict.get?_insert, ih, List.reverse_append, List.reverse_singleton,
      List.singleton_append]
    by_cases h : e.1 = key
    · simp [h]
    · rw [if_neg (Ne.symm h), List.find?_cons_of_neg (by simpa using h)]

/-- In the values of a dictionary the fields of every object stand in key order. -/
def Dict.InOrder (d : Dict Json) : Prop :=
  ∀ e ∈ d.entries, e.2.sorted = e.2

namespace Json

/-! ### Looking fields up -/

section Lookup

variable {α : Type} {key : String}

@[simp]
theorem get?_nil : (object []).get? key = none := rfl

/-- The fields that stand at the end count before the others. -/
@[simp]
theorem get?_append (fs gs : List (String × Json)) :
    (object (fs ++ gs)).get? key = ((object gs).get? key).or ((object fs).get? key) := by
  simp only [get?, List.reverse_append, List.find?_append]
  cases List.find? (fun f => f.1 == key) gs.reverse <;> rfl

@[simp]
theorem get?_cons (k : String) (j : Json) (fs : List (String × Json)) :
    (object ((k, j) :: fs)).get? key =
      ((object fs).get? key).or (if k = key then some j else none) := by
  rw [← List.singleton_append, get?_append]
  by_cases h : k = key <;> simp [get?, h]

@[simp]
theorem get?_optional (k : String) (encode : α → Json) (v : Option α) :
    (object (optional k encode v)).get? key = if k = key then v.map encode else none := by
  cases v <;> simp [optional]

end Lookup

/-! ### Key order -/

theorem sortedItems_eq_map (js : List Json) : sortedItems js = js.map sorted := by
  induction js with
  | nil => rfl
  | cons j js ih => rw [sortedItems, ih, List.map_cons]

theorem sortedFields_eq_map (fs : List (String × Json)) :
    sortedFields fs = fs.map fun f => (f.1, f.2.sorted) := by
  induction fs with
  | nil => rfl
  | cons f fs ih =>
    obtain ⟨k, j⟩ := f
    rw [sortedFields, ih, List.map_cons]

/-- Fields in key order, with values in key order. -/
def inOrder (fields : List (String × Json)) : List (String × Json) :=
  (Dict.ofList (sortedFields fields)).entries

theorem sorted_object (fields : List (String × Json)) :
    (object fields).sorted = object (inOrder fields) := by
  rw [sorted, inOrder]

theorem sorted_string (s : String) : (string s).sorted = string s := rfl

theorem sorted_array (js : List Json) : (array js).sorted = array (js.map sorted) := by
  rw [sorted, sortedItems_eq_map]

/-- In key order every field has the value that counts. -/
theorem get?_ofList_sortedFields (fields : List (String × Json)) (key : String) :
    (Dict.ofList (sortedFields fields)).get? key = ((object fields).get? key).map sorted := by
  rw [Dict.get?_ofList, sortedFields_eq_map, ← List.map_reverse, List.find?_map, get?,
    Option.map_map, Option.map_map]
  rfl

theorem find?_inOrder (fields : List (String × Json)) (key : String) :
    (find? key (inOrder fields)).map Subtype.val = ((object fields).get? key).map sorted := by
  -- Apart from the proof that it carries along, a search among fields is one in a list.
  have first (fs : List (String × Json)) :
      (find? key fs).map Subtype.val = (fs.find? fun f => f.1 == key).map (·.2) := by
    induction fs with
    | nil => rfl
    | cons f fs ih =>
      obtain ⟨k, j⟩ := f
      rw [find?, List.find?_cons]
      by_cases h : k = key
      · simp [h]
      · simp only [h, if_false, Option.map_map]
        rw [show (k == key) = false by simpa using h, ← ih]
        rfl
  rw [first, ← get?_ofList_sortedFields]
  rfl

theorem get?_sorted (fields : List (String × Json)) (key : String) :
    (object fields).sorted.get? key = ((object fields).get? key).map sorted := by
  have hentries := Dict.get?_ofList (Dict.ofList (sortedFields fields)).entries key
  rw [Dict.ofList_entries, get?_ofList_sortedFields] at hentries
  rw [hentries, sorted_object]
  rfl

/-! ### Decoding fields -/

namespace Members

variable {whole : Json} {α β : Type} {fields : List (String × Json)}

/-- What is read from the fields of an object. -/
def Reads (m : Members whole α) (fields : List (String × Json)) (a : α) : Prop :=
  ∀ h, m.named fields h = .ok a

theorem Reads.seq {f : Members whole (α → β)} {x : Members whole α} {g : α → β} {a : α}
    (hf : f.Reads fields g) (hx : x.Reads fields a) : (f <*> x).Reads fields (g a) := by
  intro h
  have hboth : (f <*> x).named fields h = (f.andThen x).named fields h := rfl
  simp only [hboth, andThen, hf h, hx h]

theorem Reads.map {x : Members whole α} {a : α} (g : α → β) (hx : x.Reads fields a) :
    (g <$> x).Reads fields (g a) :=
  Reads.seq (f := pure g) (fun _ => rfl) hx

section Field

variable {key : String}

/-- A field that is there is decoded. -/
theorem reads_field {absent : Option α} {decode : (j : Json) → sizeOf j < sizeOf whole → Decoded α}
    {j : Json} {a : α} (hfield : (object fields).get? key = some j)
    (hdecode : ∀ h, decode j.sorted h = .ok a) :
    (field key absent decode).Reads (inOrder fields) a := by
  intro h
  have hfind := find?_inOrder fields key
  rw [hfield] at hfind
  obtain ⟨⟨i, hi⟩, hi', rfl⟩ := Option.map_eq_some_iff.1 hfind
  simp only [field, hi', hdecode]
  rfl

/-- A field that is not there has the value for that. -/
theorem reads_absent {decode : (j : Json) → sizeOf j < sizeOf whole → Decoded α} {a : α}
    (hfield : (object fields).get? key = none) :
    (field key (some a) decode).Reads (inOrder fields) a := by
  intro h
  have hfind := find?_inOrder fields key
  rw [hfield] at hfind
  have hnone : find? key (inOrder fields) = none := by simpa using hfind
  simp only [field, hnone]
  rfl

/-- A field that is written only if it has a value is decoded as that value. The decoder refuses
null, so no value is written as that. -/
theorem reads_optional {decode : (j : Json) → sizeOf j < sizeOf whole → Decoded α}
    (encode : α → Json) {v : Option α} (hfield : (object fields).get? key = v.map encode)
    (hdecode : ∀ a ∈ v, ∀ h, decode (encode a).sorted h = .ok a)
    (hnull : ∀ h, (decode .null h).toOption = none) :
    (field key (some none) fun j h => orNull j (decode j h)).Reads (inOrder fields) v := by
  cases v with
  | none => exact reads_absent hfield
  | some a =>
    have hsome (j : Json) (h : sizeOf j < sizeOf whole) (ha : decode j h = .ok a) :
        orNull j (decode j h) = .ok (some a) := by
      cases j with
      | null =>
        have hnone := hnull h
        rw [ha] at hnone
        cases hnone
      | _ => exact congrArg (Except.map some) ha
    exact reads_field hfield fun h => hsome _ h (hdecode a rfl h)

theorem reads_required {decode : Json → Decoded α} {j : Json} {a : α}
    (hfield : (object fields).get? key = some j) (hdecode : decode j.sorted = .ok a) :
    (required key decode : Members whole α).Reads (inOrder fields) a :=
  reads_field hfield fun _ => hdecode

theorem reads_defaulted {absent : α} {decode : Json → Decoded α} {j : Json} {a : α}
    (hfield : (object fields).get? key = some j) (hdecode : decode j.sorted = .ok a) :
    (defaulted key absent decode : Members whole α).Reads (inOrder fields) a :=
  reads_field hfield fun _ => hdecode

theorem reads_nullable {decode : Json → Decoded α} (encode : α → Json) {v : Option α}
    (hfield : (object fields).get? key = v.map encode)
    (hdecode : ∀ a ∈ v, decode (encode a).sorted = .ok a)
    (hnull : (decode .null).toOption = none) :
    (nullable key decode : Members whole (Option α)).Reads (inOrder fields) v :=
  reads_optional encode hfield (fun a ha _ => hdecode a ha) fun _ => hnull

/-- A text that is always written is decoded. -/
theorem reads_string {s : String} (hfield : (object fields).get? key = some (.string s)) :
    (required key asString : Members whole String).Reads (inOrder fields) s :=
  reads_required hfield rfl

/-- A text that may be left out is decoded. -/
theorem reads_nullableString {v : Option String}
    (hfield : (object fields).get? key = v.map string) :
    (nullable key asString : Members whole (Option String)).Reads (inOrder fields) v :=
  reads_nullable string hfield (fun _ _ => rfl) rfl

end Field

end Members

section Structures

variable {α : Type} {setting : Setting} {name : String} {fields : List (String × Json)} {a : α}

/-- An object is decoded as what its fields give. -/
theorem asStruct_object {m : Members (object fields) α} (h : m.Reads fields a) :
    asStruct setting name (object fields) m = .ok a := by
  rw [asStruct, Members.ofFields, h]
  rfl

/-- An object with a tag is decoded as what its fields give for the variant of the tag. -/
theorem asTagged_inOrder {tag s : String}
    {variants : List (String × Variant (object (inOrder fields)) α)}
    {v : Variant (object (inOrder fields)) α}
    (htag : (object fields).get? tag = some (.string s)) (hvariant : variantOf variants s = .ok v)
    (h : v.members.Reads (inOrder fields) a) :
    asTagged setting name tag (object (inOrder fields)) variants = .ok a := by
  have hfind := find?_inOrder fields tag
  rw [htag] at hfind
  obtain ⟨⟨i, hi⟩, hi', rfl⟩ := Option.map_eq_some_iff.1 hfind
  simp only [asTagged, hi']
  rw [sorted_string, tagged, hvariant, ok_bind, Members.ofFields, h]
  rfl

end Structures

/-! ### Sequences and dictionaries -/

section Sequences

variable {α : Type}

/-- Items that are decoded one by one are decoded together. -/
theorem decodeAll_map {decode : Json → Decoded α} {encode : α → Json} {as : List α}
    (h : ∀ a ∈ as, decode (encode a) = .ok a) :
    decodeAll (as.map encode) (fun j _ => decode j) = .ok as := by
  induction as with
  | nil => rfl
  | cons a as ih =>
    obtain ⟨ha, has⟩ := List.forall_mem_cons.1 h
    rw [List.map_cons, decodeAll, ha]
    simp only [ih has]

/-- A written sequence is decoded item by item. -/
theorem asList_sorted {decode : Json → Decoded α} {encode : α → Json} {as : List α}
    (h : ∀ a ∈ as, decode (encode a).sorted = .ok a) :
    asList (array (as.map encode)).sorted (fun j _ => decode j) = .ok as := by
  rw [sorted_array, List.map_map]
  exact decodeAll_map h

theorem asStrings_sorted (ss : List String) : asStrings (strings ss).sorted = .ok ss :=
  asList_sorted fun _ _ => rfl

/-- A dictionary of values in key order is decoded as it is. -/
theorem asDict_sorted {d : Dict Json} (h : d.InOrder) :
    asDict Except.ok (ofDict id d).sorted = .ok d := by
  have hentries : sortedFields (d.entries.map fun e => (e.1, id e.2)) = d.entries := by
    rw [sortedFields_eq_map, List.map_map]
    refine (List.map_congr_left (g := id) fun e he => ?_).trans (List.map_id _)
    simp only [Function.comp_apply, id_eq, h e he]
  have hdecode (fs : List (String × Json)) : decodeFields Except.ok fs = .ok fs := by
    induction fs with
    | nil => rfl
    | cons f fs ih =>
      obtain ⟨k, j⟩ := f
      rw [decodeFields, ih]
      rfl
  rw [ofDict, sorted_object, inOrder, hentries, Dict.ofList_entries, asDict, hdecode]
  exact congrArg Except.ok d.ofList_entries

end Sequences

/-! ### Simple values -/

/-- A finite number is decoded as it is. -/
theorem asFloat_sorted {x : Float} (h : x.isFinite = true) : asFloat (float x).sorted = .ok x := by
  rw [float, if_pos h]
  rfl

/-- A small integer is decoded as it is. -/
theorem asNat32_sorted {n : Nat} (h : n < UInt32.size) : asNat32 (nat n).sorted = .ok n := by
  have hbound : (0 : Int) ≤ n ∧ (n : Int) ≤ (UInt32.size - 1 : Nat) := by omega
  have hsorted : (nat n).sorted = .number (.integer n) := rfl
  rw [hsorted, asNat32, asNat, if_pos hbound]
  rfl

/-- A value that is written as its name is decoded from it. -/
theorem asVariant_sorted {α : Type} {setting : Setting} {names : List (String × α)} {name : String}
    {a : α} (h : variantOf names name = .ok a) :
    asVariant setting names (Json.string name).sorted = .ok a := h

namespace Members

variable {whole : Json} {fields : List (String × Json)} {key : String}

/-- A finite number that may be left out is decoded. -/
theorem reads_nullableFloat {v : Option Float} (hfield : (object fields).get? key = v.map float)
    (hfinite : ∀ x ∈ v, x.isFinite = true) :
    (nullable key asFloat : Members whole (Option Float)).Reads (inOrder fields) v :=
  reads_nullable float hfield (fun x hx => asFloat_sorted (hfinite x hx)) rfl

/-- A value that is written as its name and may be left out is decoded. -/
theorem reads_nullableVariant {α : Type} {setting : Setting} {names : List (String × α)}
    {name : α → String} {v : Option α}
    (hfield : (object fields).get? key = v.map fun a => string (name a))
    (hname : ∀ a, variantOf names (name a) = .ok a) :
    (nullable key (asVariant setting names) : Members whole (Option α)).Reads (inOrder fields) v :=
  reads_nullable (fun a => string (name a)) hfield (fun a _ => asVariant_sorted (hname a)) rfl

end Members

end Json

end Mockup
