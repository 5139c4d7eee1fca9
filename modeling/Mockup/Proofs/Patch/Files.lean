import Mockup.Patch.Request

/-!
# Patches of several files

Operations that run on several files, each on the one that it names, do to each file what those that
name it do to its text alone.

* `textAfter ops text` — what operations leave of a text.
* `under file ops` — the operations that name a file in this way.

## Main results

* `get?_applyToFiles`: what a request leaves of each file.
* `exists_of_mem_diffs`: what a request reports as changed is changed in the text of a file.
-/

namespace Mockup.Patch

/-- The operations that name a file in this way. -/
def under (file : String) (ops : List Operation) : List Operation :=
  ops.filter fun op => op.file = file

/-- What operations in order leave of a text. -/
def textAfter (ops : List Operation) (text : String) : String :=
  ops.foldl (fun t op => (op.runOn (t, {})).1) text

/-- The labels of the operations that change something, from a text on. -/
def diffsAfter (ops : List Operation) (text : String) : List String :=
  (Request.applyTo ⟨ops⟩ text).diffs

section Text

variable {ops : List Operation} {op : Operation}

/-- The text is left whatever was reported before. -/
theorem fst_foldl_runOn (s : String × Log) :
    (ops.foldl (fun s op => op.runOn s) s).1 = textAfter ops s.1 := by
  induction ops generalizing s with
  | nil => rfl
  | cons op ops ih => exact ih (op.runOn s)

/-- A request leaves the text that its operations leave. -/
theorem source_applyTo (ops : List Operation) (text : String) :
    (Request.applyTo ⟨ops⟩ text).source = some (textAfter ops text) :=
  congrArg some (fst_foldl_runOn (text, {}))

theorem diffs_add (log : Log) (outcome : Except Obstacle (Option String)) :
    (log.add op outcome).diffs = log.diffs ++ (Log.add {} op outcome).diffs := by
  unfold Log.add
  split
  · rw [List.append_nil]
  · rfl
  · rw [List.append_nil]

/-- What is reported as changed comes after what was reported before. -/
theorem diffs_foldl_runOn (s : String × Log) :
    (ops.foldl (fun s op => op.runOn s) s).2.diffs = s.2.diffs ++ diffsAfter ops s.1 := by
  induction ops generalizing s with
  | nil => exact (List.append_nil _).symm
  | cons op ops ih =>
    have hfirst : (op.runOn s).2.diffs = s.2.diffs ++ (op.runOn (s.1, {})).2.diffs := diffs_add _ _
    have hall : diffsAfter (op :: ops) s.1 =
        (op.runOn (s.1, {})).2.diffs ++ diffsAfter ops (op.runOn (s.1, {})).1 :=
      ih (op.runOn (s.1, {}))
    rw [List.foldl_cons, ih, hfirst, hall, List.append_assoc]
    rfl

theorem diffsAfter_cons (op : Operation) (ops : List Operation) (text : String) :
    diffsAfter (op :: ops) text = diffsAfter [op] text ++ diffsAfter ops (textAfter [op] text) :=
  diffs_foldl_runOn (op.runOn (text, {}))

/-- An operation reports nothing but its own label. -/
theorem eq_label_of_mem_diffsAfter {text label : String} (h : label ∈ diffsAfter [op] text) :
    label = op.label := by
  change label ∈ (Log.add {} op (op.applyTo text)).diffs at h
  unfold Log.add at h
  split at h
  · cases h
  · exact List.mem_singleton.1 h
  · cases h

end Text

/-! ### Files -/

section Files

variable {file : String} {s : Dict String × Log}

theorem under_cons_of_eq {op : Operation} (ops : List Operation) (h : op.file = file) :
    under file (op :: ops) = op :: under file ops :=
  List.filter_cons_of_pos (by simpa using h)

theorem under_cons_of_ne {op : Operation} (ops : List Operation) (h : op.file ≠ file) :
    under file (op :: ops) = under file ops :=
  List.filter_cons_of_neg (by simpa using h)

/-- An operation leaves the files that it does not name as they are. -/
theorem get?_runOnFiles_of_ne {op : Operation} (h : op.file ≠ file) :
    (op.runOnFiles s).1.get? file = s.1.get? file := by
  unfold Operation.runOnFiles
  cases s.1.get? op.file with
  | none => rfl
  | some text =>
    simp only
    split
    · rw [Dict.get?_insert, if_neg (Ne.symm h)]
    · rfl

/-- An operation does to the file that it names what it does to the text of that file. -/
theorem get?_runOnFiles_file (op : Operation) (s : Dict String × Log) :
    (op.runOnFiles s).1.get? op.file = (s.1.get? op.file).map (textAfter [op]) := by
  unfold Operation.runOnFiles
  cases hget : s.1.get? op.file with
  | none => exact hget
  | some text =>
    simp only [Option.map_some, textAfter, List.foldl_cons, List.foldl_nil, Operation.runOn]
    split
    · rw [Dict.get?_insert, if_pos rfl]
    · exact hget

/-- Operations leave of each file what those that name it leave of its text. -/
theorem get?_foldl_runOnFiles (ops : List Operation) (s : Dict String × Log) (file : String) :
    (ops.foldl (fun s op => op.runOnFiles s) s).1.get? file =
      (s.1.get? file).map (textAfter (under file ops)) := by
  induction ops generalizing s with
  | nil => exact Option.map_id'.symm
  | cons op ops ih =>
    rw [List.foldl_cons, ih]
    -- The first operation counts for the file that it names, and for no other.
    by_cases hfile : op.file = file
    · subst hfile
      rw [get?_runOnFiles_file, under_cons_of_eq ops rfl, Option.map_map]
      rfl
    · rw [get?_runOnFiles_of_ne hfile, under_cons_of_ne ops hfile]

/-- A request leaves of each file what the operations that name it leave of its text. -/
theorem get?_applyToFiles (r : Request) (files : Dict String) (file : String) :
    (r.applyToFiles files).1.get? file = (files.get? file).map (textAfter (under file r.ops)) :=
  get?_foldl_runOnFiles r.ops (files, {}) file

/-- What an operation reports as changed in a file it changes in the text of that file. -/
theorem diffs_runOnFiles (op : Operation) (s : Dict String × Log) : (op.runOnFiles s).2.diffs =
    s.2.diffs ++ ((s.1.get? op.file).map (diffsAfter [op])).getD [] := by
  unfold Operation.runOnFiles
  cases s.1.get? op.file with
  | none => exact diffs_add _ _
  | some text => exact diffs_add _ _

/-- A label that operations report is that of one of them, and the operations that name the same
file report it for the text of the file. -/
theorem exists_of_mem_diffs_foldl {ops : List Operation} {label : String}
    (h : label ∈ (ops.foldl (fun s op => op.runOnFiles s) s).2.diffs) : label ∈ s.2.diffs ∨
      ∃ op ∈ ops, op.label = label ∧ ∃ text, s.1.get? op.file = some text ∧
        label ∈ diffsAfter (under op.file ops) text := by
  induction ops generalizing s with
  | nil => exact .inl h
  | cons op ops ih =>
    rcases ih h with h | ⟨op', hop', hlabel, text', htext', hmem⟩
    · rw [diffs_runOnFiles] at h
      rcases List.mem_append.1 h with h | h
      · exact .inl h
      · -- The first operation reports the label itself.
        cases hget : s.1.get? op.file with
        | none =>
          rw [hget] at h
          cases h
        | some text =>
          rw [hget] at h
          refine .inr ⟨op, List.mem_cons_self, (eq_label_of_mem_diffsAfter h).symm, text, hget, ?_⟩
          rw [under_cons_of_eq ops rfl, diffsAfter_cons]
          exact List.mem_append_left _ h
    · -- A later one does, for the text that the first one leaves of its file.
      refine .inr ⟨op', List.mem_cons_of_mem _ hop', hlabel, ?_⟩
      by_cases hfile : op.file = op'.file
      · rw [← hfile, get?_runOnFiles_file] at htext'
        obtain ⟨text, hget, rfl⟩ := Option.map_eq_some_iff.1 htext'
        refine ⟨text, hfile ▸ hget, ?_⟩
        rw [under_cons_of_eq ops hfile, diffsAfter_cons]
        exact List.mem_append_right _ hmem
      · rw [get?_runOnFiles_of_ne hfile] at htext'
        refine ⟨text', htext', ?_⟩
        rw [under_cons_of_ne ops hfile]
        exact hmem

/-- A label that a request reports is that of one of its operations, and the operations that name
the same file report it for the text of the file. -/
theorem exists_of_mem_diffs {r : Request} {files : Dict String} {label : String}
    (h : label ∈ (r.applyToFiles files).2.diffs) :
    ∃ op ∈ r.ops, op.label = label ∧ ∃ text, files.get? op.file = some text ∧
      label ∈ diffsAfter (under op.file r.ops) text := by
  change label ∈ (r.ops.foldl (fun s op => Operation.runOnFiles op s) (files, {})).2.diffs at h
  rcases exists_of_mem_diffs_foldl h with h | h
  · cases h
  · exact h

end Files

end Mockup.Patch
