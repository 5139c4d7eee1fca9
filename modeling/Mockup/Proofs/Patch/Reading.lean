import Mathlib.Data.List.Forall2
import Mockup.Proofs.Json.Reader
import Mockup.Proofs.Patch.Interchange
import Mockup.Session

/-!
# Requests that are read are valid

A patch request comes as a value of its own or as a text, and both are checked. The two checks
agree: a text is read as a request exactly if the request that it writes is valid, and otherwise the
same problems are reported. Where some operations of a text cannot be decoded, the problems of the
others are reported with them, in the order of the operations.

* `problemsOf` — what is reported for the value of one operation.
* `IsFaulty` — a value that is no operation, or an operation with problems.

## Main results

* `readOps_encode`: reading written operations reports the problems of the operations.
* `forall₂_reports`: every faulty operation is reported at its own place, and no other.
* `read_eq_validate`: the two checks agree.
-/

namespace Mockup.Patch

open Json

/-! ### Reports -/

/-- The problems that are reported for the value of an operation at a position. -/
def problemsOf (index : Nat) (j : Json) : List Problem :=
  match Operation.decode j with
  | .ok op => op.problems (Request.opPlace index)
  | .error e => [⟨Request.opPlace index, .undecodable e⟩]

/-- A value that is no operation, or an operation with problems. -/
def IsFaulty (index : Nat) (j : Json) : Prop :=
  ∀ op, Operation.decode j = .ok op → op.problems (Request.opPlace index) ≠ []

/-- What is reported for a value at a position: something if the value is faulty, nothing if it is
not, and nothing that is not about it. -/
structure Reports (x : Json × Nat) (problems : List Problem) : Prop where
  faulty : problems ≠ [] ↔ IsFaulty x.2 x.1
  place : ∀ p ∈ problems, Request.opPlace x.2 <+: p.place

theorem problemsOf_ne_nil_iff {index : Nat} {j : Json} :
    problemsOf index j ≠ [] ↔ IsFaulty index j := by
  rw [problemsOf, IsFaulty]
  cases Operation.decode j with
  | error e => simp
  | ok op => simp

/-- The problem with a field is below the place of what has the field. -/
theorem isPrefix_of_mem_when {c : Bool} {place : Place} {name : String} {complaint : Complaint}
    {p : Problem} (h : p ∈ Problem.when c (place.field name) complaint) : place <+: p.place := by
  unfold Problem.when at h
  split at h
  · obtain rfl := List.mem_singleton.1 h
    exact List.prefix_append _ _
  · cases h

theorem isPrefix_of_mem_changeProblems {place : Place} {change : ElementChange} {p : Problem}
    (h : p ∈ change.problems place) : place <+: p.place := by
  cases change with
  | addClass classes => exact isPrefix_of_mem_when h
  | removeClass classes => exact isPrefix_of_mem_when h
  | replaceClass old new =>
    rw [ElementChange.problems, List.mem_append, List.mem_append] at h
    rcases h with (h | h) | h <;> exact isPrefix_of_mem_when h
  | setAttribute name value => exact isPrefix_of_mem_when h
  | insertAfter code => exact isPrefix_of_mem_when h

/-- The problems of an operation are at its place or below. -/
theorem isPrefix_of_mem_problems {place : Place} {op : Operation} {p : Problem}
    (h : p ∈ op.problems place) : place <+: p.place := by
  rw [Operation.problems, List.mem_append, List.mem_append] at h
  rcases h with (h | h) | h
  · exact isPrefix_of_mem_when h
  · unfold Change.problems at h
    split at h
    · rcases List.mem_append.1 h with h | h
      · exact isPrefix_of_mem_when h
      · exact isPrefix_of_mem_changeProblems h
    · exact isPrefix_of_mem_when h
  · exact isPrefix_of_mem_when h

theorem isPrefix_of_mem_problemsOf {index : Nat} {j : Json} {p : Problem}
    (h : p ∈ problemsOf index j) : Request.opPlace index <+: p.place := by
  unfold problemsOf at h
  split at h
  · exact isPrefix_of_mem_problems h
  · obtain rfl := List.mem_singleton.1 h
    exact List.prefix_refl _

/-- Every faulty value of a list is reported at its own place, and no other. -/
theorem forall₂_reports (js : List (Json × Nat)) :
    List.Forall₂ Reports js (js.map fun x => problemsOf x.2 x.1) := by
  induction js with
  | nil => exact .nil
  | cons j js ih =>
    exact .cons ⟨problemsOf_ne_nil_iff, fun _ => isPrefix_of_mem_problemsOf⟩ ih

/-! ### Reading operations -/

theorem Change.textual_fields (change : Change) (depth : Nat) :
    ∀ f ∈ change.fields, f.2.Textual depth := by
  cases change with
  | element locator change => cases change <;> simp [fields, ElementChange.fields, Textual.string]
  | text find replacement => simp [fields, Textual.string]

/-- The object of an operation holds strings only. -/
theorem Operation.textual_encode (op : Operation) (depth : Nat) :
    op.encode.Textual (depth + 1) := by
  refine .object (List.forall_mem_cons.2 ⟨.string, List.forall_mem_cons.2 ⟨.string, ?_⟩⟩)
  exact op.change.textual_fields depth

namespace Request

/-- The problems of a list of values are those of each value, in order. -/
theorem problems_readOps (index : Nat) (js : List Json) :
    (readOps index js).2 = ((js.zipIdx index).map fun x => problemsOf x.2 x.1).flatten := by
  induction js generalizing index with
  | nil => rfl
  | cons j js ih =>
    rw [readOps, List.zipIdx_cons, List.map_cons, List.flatten_cons, ← ih, problemsOf]
    cases Operation.decode j <;> rfl

/-- Values that are read without problems are operations without problems. -/
theorem problemsFrom_of_readOps {index : Nat} {js : List Json} (h : (readOps index js).2 = []) :
    problemsFrom index (readOps index js).1 = [] ∧ (readOps index js).1.length = js.length := by
  induction js generalizing index with
  | nil => exact ⟨rfl, rfl⟩
  | cons j js ih =>
    rw [readOps] at h ⊢
    cases hdecode : Operation.decode j with
    | error e => simp [hdecode] at h
    | ok op =>
      simp only [hdecode, List.append_eq_nil_iff] at h ⊢
      obtain ⟨hproblems, hlength⟩ := ih h.2
      exact ⟨by rw [problemsFrom, h.1, hproblems, List.append_nil], by simp [hlength]⟩

/-- Written operations are read back, with the problems that they have. -/
theorem readOps_encode (index : Nat) (ops : List Operation) :
    readOps index (ops.map fun op => op.encode.sorted) = (ops, problemsFrom index ops) := by
  induction ops generalizing index with
  | nil => rfl
  | cons op ops ih => rw [List.map_cons, readOps, ih, Operation.decode_encode, problemsFrom]

/-! ### Reading requests -/

/-- A value with operations is a request if nothing is reported for any of them. -/
theorem ofJson_of_ops {j : Json} {js : List Json} (h : j.get? "ops" = some (.array js))
    (hne : js ≠ []) : ofJson j =
      if (readOps 0 js).2 = [] then .ok ⟨(readOps 0 js).1⟩ else .error (readOps 0 js).2 := by
  cases js with
  | nil => exact absurd rfl hne
  | cons k ks =>
    simp only [ofJson, h]
    obtain ⟨ops, problems⟩ := readOps 0 (k :: ks)
    cases problems <;> rfl

/-- The value of a request with operations holds them. -/
theorem exists_ops_of_ofJson {j : Json} {r : Request} (h : ofJson j = .ok r) :
    ∃ js, j.get? "ops" = some (.array js) ∧ js ≠ [] := by
  unfold ofJson at h
  split at h
  · cases h
  · cases h
  · next js hne hops => exact ⟨js, hops, fun heq => hne (by rw [heq])⟩
  · cases h

/-- A request is valid if it has operations and none of them has problems. -/
theorem validate_eq {ops : List Operation} (h : ops ≠ []) :
    validate ⟨ops⟩ = Problem.check (problemsFrom 0 ops) := by
  rw [validate, problems, if_neg (by simpa using h)]

/-- What is read from a value is valid. -/
theorem validate_of_ofJson {j : Json} {r : Request} (h : ofJson j = .ok r) :
    r.validate = .ok () := by
  obtain ⟨js, hops, hne⟩ := exists_ops_of_ofJson h
  rw [ofJson_of_ops hops hne] at h
  split at h
  · next hnone =>
    cases h
    -- Nothing was left out, so there still are operations.
    obtain ⟨hproblems, hlength⟩ := problemsFrom_of_readOps hnone
    have hsome : (readOps 0 js).1 ≠ [] := by
      rw [← List.length_pos_iff, hlength]
      exact List.length_pos_iff.2 hne
    rw [validate_eq hsome, hproblems]
    rfl
  · cases h

/-- The value of a request is read as the request if that is valid, and with its problems if not. -/
theorem ofJson_encode (r : Request) :
    ofJson r.encode.sorted = r.validate.map fun _ => r := by
  have hops : r.encode.sorted.get? "ops" =
      some (.array (r.ops.map fun op => op.encode.sorted)) := by
    rw [encode, get?_sorted]
    simp [sorted_array]
  obtain ⟨ops⟩ := r
  cases ops with
  | nil =>
    simp only [ofJson, hops]
    rfl
  | cons op ops =>
    rw [ofJson_of_ops hops (by simp), readOps_encode, validate_eq (by simp), Problem.check]
    by_cases h : problemsFrom 0 (op :: ops) = [] <;> simp [h, Except.map]

/-- The object of a request holds a list of objects of strings. -/
theorem textual_encode (r : Request) : r.encode.Textual maxNesting := by
  refine .object (List.forall_mem_singleton.2 (.array fun j hj => ?_))
  obtain ⟨op, -, rfl⟩ := List.mem_map.1 hj
  exact op.textual_encode 124

theorem read_of_read? {text : String} {j : Json} (h : Json.read? text = some j) :
    read text = Failure.ofProblems (ofJson j) := by
  rw [read, h]

/-- The two checks of a request agree. The text of a request is read as the request exactly if it is
valid, and otherwise both checks have the same problems. Whatever is read from a text is valid. Of a
text with operations every one that is faulty is reported, in order, and no other. -/
theorem read_eq_validate :
    (∀ r : Request, read r.encode.compact = Failure.ofProblems (r.validate.map fun _ => r)) ∧
      (∀ text r, read text = .ok r → r.validate = .ok ()) ∧
      ∀ text j js, Json.read? text = some j → j.get? "ops" = some (.array js) → js ≠ [] →
        ∃ problems, List.Forall₂ Reports js.zipIdx problems ∧
          (problems.flatten = [] → ∃ r, read text = .ok r) ∧
          (problems.flatten ≠ [] → read text = .error (.invalid problems.flatten)) := by
  refine ⟨fun r => ?_, fun text r h => ?_, fun text j js hread hops hne => ?_⟩
  · rw [read_of_read? (read?_compact r.textual_encode), ofJson_encode]
  · unfold read at h
    split at h
    · cases h
    · exact validate_of_ofJson (mapError_eq_ok_iff.1 h)
  · refine ⟨_, forall₂_reports js.zipIdx, ?_⟩
    rw [← problems_readOps, read_of_read? hread, ofJson_of_ops hops hne]
    constructor
    · intro hnone
      exact ⟨_, by rw [if_pos hnone]; rfl⟩
    · intro hsome
      rw [if_neg hsome]
      rfl

/-- An operation on a file outside the folder. -/
def outside : Operation := ⟨"../a.tsx", .text "Save" "Store"⟩

/-- A value whose first operation is none, and whose second one leaves the folder. -/
def mixed : Json := .object [("ops", .array [.string "addClass", outside.encode])]

/-- A request that replaces a text. -/
def plain : Request := ⟨[⟨"a.tsx", .text "Save" "Store"⟩]⟩

theorem read_eq_validate_mixed :
    (∃ problems, List.Forall₂ Reports [(.string "addClass", 0), (outside.encode.sorted, 1)]
        problems ∧
      problems.flatten ≠ [] ∧ read mixed.compact = .error (.invalid problems.flatten)) ∧
      read plain.encode.compact = .ok plain ∧ plain.validate = .ok () := by
  have hplain : read plain.encode.compact = .ok plain := read_eq_validate.1 plain
  refine ⟨?_, hplain, read_eq_validate.2.1 _ _ hplain⟩
  have htextual : mixed.Textual maxNesting :=
    .object (List.forall_mem_singleton.2 (.array (List.forall_mem_cons.2 ⟨.string,
      List.forall_mem_singleton.2 (outside.textual_encode 124)⟩)))
  have hops : mixed.sorted.get? "ops" =
      some (.array [.string "addClass", outside.encode.sorted]) := by
    rw [mixed, get?_sorted]
    simp [sorted_array, sorted_string]
  obtain ⟨problems, hreports, -, herror⟩ :=
    read_eq_validate.2.2 _ _ _ (read?_compact htextual) hops (by simp)
  have hsome : problems.flatten ≠ [] := by
    cases hreports with
    | cons hfirst _ =>
      -- A string is no operation, whatever its text.
      have hne := hfirst.faulty.2 nofun
      simp [hne]
  exact ⟨problems, hreports, hsome, herror hsome⟩

end Request

end Mockup.Patch
