import Mockup.Proofs.Patch.Files

/-!
# What comes of each operation

A request on several files works on each file by itself: what comes of an operation depends on its
file and on the earlier operations that name the same file, whatever stands between them. So the
report of a request lists these outcomes in order, and without the operations that fail the request
does the same.

* `outcomes files ops` — what comes of each of some operations.
* `resultOf xs source` — the report on operations with these outcomes.

## Main results

* `snd_runAll_append`: running operations on files reports their outcomes.
* `snd_foldl_runOn_under`: those that name one file have the same outcomes on its text alone.
* `outcomesFrom_succeeded`: without the operations that fail the others have the same outcomes.
* `fileByFile_applyToFiles`: what a request does to files.
-/

namespace Mockup.Patch

/-! ### Outcomes -/

/-- What comes of an operation on files. -/
def Operation.outcomeOn (op : Operation) (files : Dict String) : Except Obstacle (Option String) :=
  match files.get? op.file with
  | none => .error .unknownFile
  | some text => op.applyTo text

/-- What comes of an operation on files after earlier ones: what it does to the text that those
which name the same file leave. -/
def outcomeAfter (files : Dict String) (earlier : List Operation) (op : Operation) :
    Except Obstacle (Option String) :=
  match files.get? op.file with
  | none => .error .unknownFile
  | some text => op.applyTo (textAfter (under op.file earlier) text)

/-- Operations after earlier ones, each with what comes of it. -/
def outcomesFrom (files : Dict String) (earlier : List Operation) :
    List Operation → List (Operation × Except Obstacle (Option String))
  | [] => []
  | op :: ops => (op, outcomeAfter files earlier op) :: outcomesFrom files (earlier ++ [op]) ops

/-- Operations on files, each with what comes of it. -/
def outcomes (files : Dict String) (ops : List Operation) :
    List (Operation × Except Obstacle (Option String)) :=
  outcomesFrom files [] ops

/-- Those of some operations with their outcomes that did not fail. -/
def succeeded (xs : List (Operation × Except Obstacle (Option String))) :
    List (Operation × Except Obstacle (Option String)) :=
  xs.filter fun x => x.2.isOk

/-- The line for an operation that changed something. -/
def diffLine? : Operation × Except Obstacle (Option String) → Option String
  | (op, .ok (some _)) => some op.label
  | (_, .ok none) | (_, .error _) => none

/-- The line for an operation that failed. -/
def errorLine? : Operation × Except Obstacle (Option String) → Option String
  | (op, .error f) => some (op.label ++ " " ++ f.message)
  | (_, .ok _) => none

/-- The report on operations with these outcomes. -/
def resultOf (xs : List (Operation × Except Obstacle (Option String))) (source : Option String) :
    Result where
  success := xs.all fun x => x.2.isOk
  diffs := xs.filterMap diffLine?
  errors := xs.filterMap errorLine?
  source := source

theorem errorLine?_unknownFile (op : Operation) :
    errorLine? (op, .error .unknownFile) = some (op.label ++ " file not found") := by
  have hline : " file not found" = " " ++ "file not found" := rfl
  rw [hline, ← String.append_assoc]
  rfl

section Report

variable {xs : List (Operation × Except Obstacle (Option String))}

theorem succeeded_cons_ok (op : Operation) (outcome : Option String) :
    succeeded ((op, .ok outcome) :: xs) = (op, .ok outcome) :: succeeded xs :=
  rfl

theorem succeeded_cons_error (op : Operation) (f : Obstacle) :
    succeeded ((op, .error f) :: xs) = succeeded xs :=
  rfl

theorem log_add (log : Log) (x : Operation × Except Obstacle (Option String)) :
    log.add x.1 x.2 =
      ⟨log.diffs ++ (diffLine? x).toList, log.errors ++ (errorLine? x).toList⟩ := by
  obtain ⟨op, outcome⟩ := x
  match outcome with
  | .ok none => simp [Log.add, diffLine?, errorLine?]
  | .ok (some text) => simp [Log.add, diffLine?, errorLine?]
  | .error f => simp [Log.add, diffLine?, errorLine?]

/-- A log lists the changes and the failures among outcomes in order. -/
theorem log_foldl_add (log : Log) : xs.foldl (fun log x => log.add x.1 x.2) log =
    ⟨log.diffs ++ xs.filterMap diffLine?, log.errors ++ xs.filterMap errorLine?⟩ := by
  induction xs generalizing log with
  | nil => simp
  | cons x xs ih =>
    rw [List.foldl_cons, ih, log_add]
    cases hdiff : diffLine? x <;> cases herror : errorLine? x <;> simp [hdiff, herror]

/-- There is a line for every operation that failed. -/
theorem isEmpty_errorLines : (xs.filterMap errorLine?).isEmpty = xs.all fun x => x.2.isOk := by
  induction xs with
  | nil => rfl
  | cons x xs ih =>
    obtain ⟨op, outcome⟩ := x
    rw [List.all_cons, ← ih]
    cases outcome with
    | ok text => rfl
    | error f => rfl

/-- The log of outcomes gives the report on them. -/
theorem result_foldl_add (source : Option String) :
    (xs.foldl (fun log x => Log.add log x.1 x.2) {}).result source = resultOf xs source := by
  rw [log_foldl_add, Log.result, resultOf, ← isEmpty_errorLines]
  rfl

/-- Without the failures a report lists the same changes and no failures. -/
theorem resultOf_succeeded (source : Option String) :
    resultOf (succeeded xs) source = ⟨true, xs.filterMap diffLine?, [], source⟩ := by
  have hdiffs : (succeeded xs).filterMap diffLine? = xs.filterMap diffLine? := by
    induction xs with
    | nil => rfl
    | cons x xs ih =>
      obtain ⟨op, outcome⟩ := x
      cases outcome with
      | ok text => rw [succeeded_cons_ok, List.filterMap_cons, List.filterMap_cons, ih]
      | error f => exact ih
  have hall : (succeeded xs).all (fun x => x.2.isOk) = true := by simp [succeeded]
  have herrors : (succeeded xs).filterMap errorLine? = [] := by
    rw [← List.isEmpty_iff, isEmpty_errorLines, hall]
  rw [resultOf, hall, hdiffs, herrors]

end Report

/-! ### Running operations on files -/

/-- What operations in order leave of files, and what they report. -/
def runAll (files : Dict String) (ops : List Operation) : Dict String × Log :=
  ops.foldl (fun s op => op.runOnFiles s) (files, {})

section Running

variable {files : Dict String} {earlier earlier' ops : List Operation} {op : Operation}
  {file text : String}

theorem runAll_concat (files : Dict String) (ops : List Operation) (op : Operation) :
    runAll files (ops ++ [op]) = op.runOnFiles (runAll files ops) := by
  rw [runAll, List.foldl_append]
  rfl

theorem outcomesFrom_append (files : Dict String) (earlier ops ops' : List Operation) :
    outcomesFrom files earlier (ops ++ ops') =
      outcomesFrom files earlier ops ++ outcomesFrom files (earlier ++ ops) ops' := by
  induction ops generalizing earlier with
  | nil => rw [List.append_nil]; rfl
  | cons op ops ih =>
    rw [List.cons_append, outcomesFrom, ih, ← List.append_cons]
    rfl

theorem textAfter_concat (ops : List Operation) (op : Operation) (text : String) :
    textAfter (ops ++ [op]) text = (op.runOn (textAfter ops text, {})).1 := by
  rw [textAfter, List.foldl_append]
  rfl

theorem under_concat_of_eq (ops : List Operation) (h : op.file = file) :
    under file (ops ++ [op]) = under file ops ++ [op] := by
  simp [under, h]

theorem under_concat_of_ne (ops : List Operation) (h : op.file ≠ file) :
    under file (ops ++ [op]) = under file ops := by
  simp [under, h]

/-- An operation puts the text that comes of it into its file, and reports what came of it. -/
theorem runOnFiles_eq (op : Operation) (s : Dict String × Log) : op.runOnFiles s =
    (match op.outcomeOn s.1 with
      | .ok (some text) => s.1.insert op.file text
      | _ => s.1, s.2.add op (op.outcomeOn s.1)) := by
  unfold Operation.runOnFiles Operation.outcomeOn
  cases s.1.get? op.file with
  | none => rfl
  | some text => rfl

/-- What comes of an operation after earlier ones is what comes of it on the files they leave. -/
theorem outcomeOn_runAll (files : Dict String) (earlier : List Operation) (op : Operation) :
    op.outcomeOn (runAll files earlier).1 = outcomeAfter files earlier op := by
  have hget := get?_foldl_runOnFiles earlier (files, {}) op.file
  rw [Operation.outcomeOn, outcomeAfter, runAll, hget]
  cases files.get? op.file with
  | none => rfl
  | some text => rfl

/-- Running operations on files after earlier ones reports their outcomes. -/
theorem snd_runAll_append (files : Dict String) (earlier ops : List Operation) :
    (runAll files (earlier ++ ops)).2 = (outcomesFrom files earlier ops).foldl
      (fun log x => log.add x.1 x.2) (runAll files earlier).2 := by
  induction ops generalizing earlier with
  | nil => rw [List.append_nil]; rfl
  | cons op ops ih =>
    rw [List.append_cons, ih, runAll_concat, runOnFiles_eq, outcomeOn_runAll]
    rfl

/-- The operations that name one file have the same outcomes on its text alone. -/
theorem snd_foldl_runOn_under (hfile : files.get? file = some text) (earlier ops : List Operation)
    (log : Log) :
    ((under file ops).foldl (fun s op => op.runOn s) (textAfter (under file earlier) text, log)).2 =
      ((outcomesFrom files earlier ops).filter fun x => x.1.file = file).foldl
        (fun log x => log.add x.1 x.2) log := by
  induction ops generalizing earlier log with
  | nil => rfl
  | cons op ops ih =>
    rw [outcomesFrom]
    by_cases hop : op.file = file
    · have houtcome : outcomeAfter files earlier op =
          op.applyTo (textAfter (under file earlier) text) := by
        rw [outcomeAfter, hop, hfile]
      rw [under_cons_of_eq ops hop, List.filter_cons_of_pos (by simpa using hop), List.foldl_cons,
        List.foldl_cons, houtcome, ← ih, under_concat_of_eq earlier hop, textAfter_concat]
      rfl
    · rw [under_cons_of_ne ops hop, List.filter_cons_of_neg (by simpa using hop), ← ih,
        under_concat_of_ne earlier hop]

/-- What is left of files does not depend on what was reported before. -/
theorem fst_foldl_runOnFiles (ops : List Operation) (d : Dict String) (log log' : Log) :
    (ops.foldl (fun s op => op.runOnFiles s) (d, log)).1 =
      (ops.foldl (fun s op => op.runOnFiles s) (d, log')).1 := by
  induction ops generalizing d log log' with
  | nil => rfl
  | cons op ops ih =>
    rw [List.foldl_cons, List.foldl_cons, runOnFiles_eq, runOnFiles_eq]
    exact ih _ _ _

theorem fst_runAll_append (files : Dict String) (ops ops' : List Operation) (log : Log) :
    (runAll files (ops ++ ops')).1 =
      (ops'.foldl (fun s op => op.runOnFiles s) ((runAll files ops).1, log)).1 := by
  rw [runAll, List.foldl_append]
  exact fst_foldl_runOnFiles _ _ _ _

/-- No operation adds a file or takes one away. -/
theorem keys_runOnFiles (op : Operation) (s : Dict String × Log) :
    (op.runOnFiles s).1.entries.map Prod.fst = s.1.entries.map Prod.fst := by
  unfold Operation.runOnFiles
  cases hget : s.1.get? op.file with
  | none => rfl
  | some text =>
    simp only
    split
    · exact Dict.keys_insert (by rw [hget]; rfl) _
    · rfl

theorem keys_foldl_runOnFiles (ops : List Operation) (s : Dict String × Log) :
    (ops.foldl (fun s op => op.runOnFiles s) s).1.entries.map Prod.fst =
      s.1.entries.map Prod.fst := by
  induction ops generalizing s with
  | nil => rfl
  | cons op ops ih => rw [List.foldl_cons, ih, keys_runOnFiles]

/-! ### Operations that fail -/

/-- Two lists of operations leave the same texts. -/
def SameTexts (files : Dict String) (ops ops' : List Operation) : Prop :=
  ∀ file text, files.get? file = some text →
    textAfter (under file ops) text = textAfter (under file ops') text

theorem SameTexts.concat (h : SameTexts files earlier earlier') (op : Operation) :
    SameTexts files (earlier ++ [op]) (earlier' ++ [op]) := by
  intro file text hfile
  by_cases hop : op.file = file
  · rw [under_concat_of_eq _ hop, under_concat_of_eq _ hop, textAfter_concat, textAfter_concat,
      h file text hfile]
  · rw [under_concat_of_ne _ hop, under_concat_of_ne _ hop, h file text hfile]

/-- An outcome depends on the texts only that the earlier operations leave. -/
theorem SameTexts.outcomeAfter_eq (h : SameTexts files earlier earlier') (op : Operation) :
    outcomeAfter files earlier op = outcomeAfter files earlier' op := by
  unfold outcomeAfter
  cases hfile : files.get? op.file with
  | none => rfl
  | some text => exact congrArg op.applyTo (h op.file text hfile)

theorem SameTexts.outcomesFrom_eq (h : SameTexts files earlier earlier') (ops : List Operation) :
    outcomesFrom files earlier ops = outcomesFrom files earlier' ops := by
  induction ops generalizing earlier earlier' with
  | nil => rfl
  | cons op ops ih => rw [outcomesFrom, outcomesFrom, h.outcomeAfter_eq, ih (h.concat op)]

/-- An operation that fails leaves all texts as they are. -/
theorem sameTexts_of_error {f : Obstacle} (h : outcomeAfter files earlier op = .error f) :
    SameTexts files (earlier ++ [op]) earlier := by
  intro file text hfile
  by_cases hop : op.file = file
  · rw [outcomeAfter, hop, hfile] at h
    have hfails : op.applyTo (textAfter (under file earlier) text) = .error f := h
    rw [under_concat_of_eq _ hop, textAfter_concat, Operation.runOn, hfails]
  · rw [under_concat_of_ne _ hop]

/-- After earlier operations, one that fails changes no file. -/
theorem fst_runAll_concat_of_error {f : Obstacle} (h : outcomeAfter files earlier op = .error f) :
    (runAll files (earlier ++ [op])).1 = (runAll files earlier).1 := by
  rw [runAll_concat, runOnFiles_eq, outcomeOn_runAll, h]

/-- Without the operations that fail the others have the same outcomes. -/
theorem outcomesFrom_succeeded (h : SameTexts files earlier' earlier) (ops : List Operation) :
    outcomesFrom files earlier' ((succeeded (outcomesFrom files earlier ops)).map Prod.fst) =
      succeeded (outcomesFrom files earlier ops) := by
  induction ops generalizing earlier earlier' with
  | nil => rfl
  | cons op ops ih =>
    rw [outcomesFrom]
    cases houtcome : outcomeAfter files earlier op with
    | ok text =>
      rw [succeeded_cons_ok, List.map_cons, outcomesFrom, h.outcomeAfter_eq, houtcome,
        ih (h.concat op)]
    | error f =>
      rw [succeeded_cons_error]
      refine ih fun file text hfile => ?_
      rw [h file text hfile, sameTexts_of_error houtcome file text hfile]

/-- Without the operations that fail the same is left of the files. -/
theorem fst_foldl_succeeded (files : Dict String) (earlier ops : List Operation) (log : Log) :
    (((succeeded (outcomesFrom files earlier ops)).map Prod.fst).foldl
        (fun s op => op.runOnFiles s) ((runAll files earlier).1, log)).1 =
      (runAll files (earlier ++ ops)).1 := by
  induction ops generalizing earlier log with
  | nil => rw [List.append_nil]; rfl
  | cons op ops ih =>
    have hrest := ih (earlier ++ [op]) log
    rw [← List.append_cons] at hrest
    rw [outcomesFrom, ← hrest]
    cases houtcome : outcomeAfter files earlier op with
    | ok text =>
      rw [succeeded_cons_ok, List.map_cons, List.foldl_cons, runAll_concat, runOnFiles_eq,
        runOnFiles_eq]
      exact fst_foldl_runOnFiles _ _ _ _
    | error f =>
      rw [succeeded_cons_error, fst_runAll_concat_of_error houtcome]

/-- Without an operation that fails the others have the same outcomes. -/
theorem outcomes_of_error {f : Obstacle} (h : outcomeAfter files earlier op = .error f)
    (ops : List Operation) : outcomes files (earlier ++ op :: ops) =
      outcomes files earlier ++ (op, .error f) :: outcomesFrom files earlier ops := by
  rw [outcomes, outcomesFrom_append, List.nil_append, outcomesFrom, h,
    (sameTexts_of_error h).outcomesFrom_eq]
  rfl

/-- Without an operation that fails the same is left of the files. -/
theorem fst_runAll_of_error {f : Obstacle} (h : outcomeAfter files earlier op = .error f)
    (ops : List Operation) :
    (runAll files (earlier ++ op :: ops)).1 = (runAll files (earlier ++ ops)).1 := by
  rw [List.append_cons, fst_runAll_append files _ ops {}, fst_runAll_concat_of_error h,
    ← fst_runAll_append]

/-! ### Requests -/

/-- Running a request leaves what its operations leave, and reports their outcomes. -/
theorem applyToFiles_eq (files : Dict String) (ops : List Operation) :
    Request.applyToFiles ⟨ops⟩ files =
      ((runAll files ops).1, resultOf (outcomes files ops) none) := by
  have hlog := snd_runAll_append files [] ops
  rw [← result_foldl_add]
  exact congrArg (fun log => ((runAll files ops).1, log.result none)) hlog

/-- The report on a request for one text. -/
theorem applyTo_under (hfile : files.get? file = some text) (ops : List Operation) :
    Request.applyTo ⟨under file ops⟩ text =
      resultOf ((outcomes files ops).filter fun x => x.1.file = file)
        ((runAll files ops).1.get? file) := by
  have hlog := snd_foldl_runOn_under hfile [] ops {}
  have htext : (runAll files ops).1.get? file = some (textAfter (under file ops) text) := by
    rw [runAll, get?_foldl_runOnFiles, hfile]
    rfl
  have hlast : ((under file ops).foldl (fun s op => op.runOn s) (text, {})).1 =
      textAfter (under file ops) text := fst_foldl_runOn (text, {})
  rw [← result_foldl_add, htext, outcomes, ← hlog, ← hlast]
  rfl

end Running

/-- What a request does to files, each file by itself. -/
structure FileByFile (r : Request) (files after : Dict String) (result : Result) : Prop where
  /-- The files are the same ones. -/
  keys : after.entries.map Prod.fst = files.entries.map Prod.fst
  /-- The lines of the report are those of the outcomes, in the order of the operations. -/
  report : result = resultOf (outcomes files r.ops) none
  /-- A request succeeds if none of its operations fails. -/
  success : result.success = true ↔ ∀ x ∈ outcomes files r.ops, ∀ f, x.2 ≠ .error f
  /-- On each file the operations that name it do what they do to its text alone: they leave the
  same text, and their outcomes are the same. -/
  each : ∀ file text, files.get? file = some text →
    (after.get? file).isSome = true ∧ Request.applyTo ⟨under file r.ops⟩ text =
      resultOf ((outcomes files r.ops).filter fun x => x.1.file = file) (after.get? file)
  /-- An operation on a file that is not there adds one line to the errors, after those of the
  operations before it, and does nothing else. -/
  unknown : ∀ front op back, r.ops = front ++ op :: back → files.get? op.file = none →
    ∃ before behind, before = (Request.applyToFiles ⟨front⟩ files).2.errors ∧
      result.errors = before ++ (op.label ++ " file not found") :: behind ∧
      Request.applyToFiles ⟨front ++ back⟩ files =
        (after, ⟨(before ++ behind).isEmpty, result.diffs, before ++ behind, none⟩)
  /-- Without the operations that fail the request leaves the same texts and reports the same
  changes. -/
  succeeding : Request.applyToFiles ⟨(succeeded (outcomes files r.ops)).map Prod.fst⟩ files =
    (after, ⟨true, result.diffs, [], none⟩)

/-- A request on several files does to each file what the operations that name it do to its text
alone, and reports what comes of each operation in order. -/
theorem fileByFile_applyToFiles (r : Request) (files : Dict String) :
    FileByFile r files (r.applyToFiles files).1 (r.applyToFiles files).2 := by
  obtain ⟨ops⟩ := r
  rw [applyToFiles_eq]
  refine ⟨keys_foldl_runOnFiles ops _, rfl, ?_,
    fun file text hfile => ⟨?_, applyTo_under hfile ops⟩, ?_, ?_⟩
  · rw [resultOf, List.all_eq_true]
    refine forall₂_congr fun x _ => ?_
    cases x.2 with
    | ok text => simp [Except.isOk, Except.toBool]
    | error f => simp [Except.isOk, Except.toBool]
  · rw [runAll, get?_foldl_runOnFiles, hfile]
    rfl
  · rintro front op back rfl hfile
    -- An operation on a file that is not there stops nothing: what comes after it comes of the
    -- files as they were left before it.
    have hfails : outcomeAfter files front op = .error .unknownFile := by
      rw [outcomeAfter, hfile]
    have hrest : outcomes files (front ++ back) =
        outcomes files front ++ outcomesFrom files front back :=
      outcomesFrom_append files [] front back
    refine ⟨_, (outcomesFrom files front back).filterMap errorLine?, rfl, ?_, ?_⟩
    · rw [applyToFiles_eq, resultOf, resultOf, outcomes_of_error hfails]
      simp only [List.filterMap_append, List.filterMap_cons, errorLine?_unknownFile]
    · have hnone : diffLine? (op, .error .unknownFile) = none := rfl
      rw [applyToFiles_eq, applyToFiles_eq, fst_runAll_of_error hfails, resultOf, resultOf,
        resultOf, outcomes_of_error hfails, hrest, ← isEmpty_errorLines]
      simp only [List.filterMap_append, List.filterMap_cons, hnone]
  · rw [applyToFiles_eq, outcomes, outcomes, outcomesFrom_succeeded (fun _ _ _ => rfl),
      resultOf_succeeded]
    exact congrArg (·, _) (fst_foldl_succeeded files [] ops {})

/-- The second edit names a file that is not there, and the third one looks for what the first one
replaced. -/
example : (Request.applyToFiles ⟨[⟨"f", .text "a" "x"⟩, ⟨"g", .text "a" "x"⟩, ⟨"f", .text "a" "y"⟩]⟩
    (Dict.ofList [("f", "ab")])).2 = ⟨false, ["f:textEdit"],
      ["g:textEdit file not found", "f:textEdit find text not found: a"], none⟩ := by
  decide +kernel

end Mockup.Patch
