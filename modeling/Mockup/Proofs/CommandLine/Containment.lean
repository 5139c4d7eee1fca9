import Mockup.Proofs.CommandLine.Patch
import Mockup.Proofs.Disk.Lexical
import Mockup.Proofs.Disk.Storage
import Mockup.Proofs.Patch.Reading

/-!
# Patches stay below their root

The command for patches asks a storage for the settings and the request, and then for nothing but
the files that operations of a valid request name. The path of each of them stays at or below the
root. Without a valid request, and in a dry run, nothing is written; a dry run reports what the real
run reports if all its writes succeed.

* `Requests k s path r` — the text of a file is that of a valid request.
* `Touches root dryRun op a` — what is asked for on behalf of an operation.
* `SameResult dry real` — the reports of a dry run and of a real one.
* `Contained`, `OnlyNamedChange` — what the command does to any storage, and to a folder.

## Main results

* `below_targetPath`: where the path of a valid operation leads.
* `ensures_patchBelow`: what a valid request asks for.
* `run_patch_cases`: the command gives up before any operation, or runs a valid request.
* `contained_run`: what the command does, whatever the storage, the root and the request.
-/

namespace Mockup.CommandLine

open Disk
open Patch (Operation Request isProjectPath)

/-! ### Paths of valid requests -/

section Paths

variable {text file : String} {r : Request}

/-- What is read from a text is valid. -/
theorem validate_of_read (h : Request.read text = .ok r) : r.validate = .ok () := by
  unfold Request.read at h
  split at h
  · cases h
  · exact Request.validate_of_ofJson (mapError_eq_ok_iff.1 h)

/-- An operation without problems names a file inside the project. -/
theorem isProjectPath_of_problems {op : Operation} {place : Place} (h : op.problems place = []) :
    isProjectPath op.file = true := by
  rw [Operation.problems, List.append_eq_nil_iff, List.append_eq_nil_iff] at h
  obtain ⟨⟨hblank, -⟩, hpath⟩ := h
  have hfile : Text.isAllBlank op.file = false := by
    simpa [Patch.blankField, Problem.when] using hblank
  simpa [Problem.when, hfile] using hpath

theorem isProjectPath_of_problemsFrom {index : Nat} {ops : List Operation}
    (h : Request.problemsFrom index ops = []) : ∀ op ∈ ops, isProjectPath op.file = true := by
  induction ops generalizing index with
  | nil => exact fun op hop => absurd hop List.not_mem_nil
  | cons op ops ih =>
    rw [Request.problemsFrom, List.append_eq_nil_iff] at h
    exact List.forall_mem_cons.2 ⟨isProjectPath_of_problems h.1, ih h.2⟩

/-- Every operation of a request that is read names a file inside the project. -/
theorem isProjectPath_of_read (h : Request.read text = .ok r) :
    ∀ op ∈ r.ops, isProjectPath op.file = true := by
  have hproblems := Problem.check_eq_ok_iff.1 (validate_of_read h)
  unfold Request.problems at hproblems
  split at hproblems
  · cases hproblems
  · exact isProjectPath_of_problemsFrom hproblems

theorem isAbsolute_relative (file : String) : isAbsolute (relative file) = false := by
  rw [isAbsolute, relative, String.toList_ofList]
  have hhead := List.head?_dropWhile_not (· == '/') file.toList
  cases hdrop : (file.toList.dropWhile (· == '/')).head? with
  | none => rfl
  | some c =>
    rw [hdrop] at hhead
    simpa using hhead

/-- No part of the path to a file inside the project leads upward. -/
theorem not_mem_partsOf_relative (h : isProjectPath file = true) :
    ".." ∉ partsOf (relative file) := by
  intro hmem
  obtain ⟨p, hp, hup⟩ := List.mem_map.1 hmem
  obtain rfl : p = ['.', '.'] := by
    rw [← String.toList_ofList (l := p), hup]
    rfl
  rw [relative, String.toList_ofList] at hp
  -- The check also cuts at backslashes, and a part without any stays one piece.
  have hpiece : ['.', '.'] ∈ Text.pieces (fun c => c == '/' || c == '\\') file.toList :=
    Text.mem_pieces_of_finer (fun c hc => by rw [hc, Bool.true_or])
      (Text.mem_pieces_of_mem_dropWhile hp) (by simp)
  simp [isProjectPath, hpiece] at h

/-- The path to the file of a valid operation stays at or below the root. -/
theorem below_targetPath (h : isProjectPath file = true) (root : String) :
    Below root (targetPath root file) :=
  below_join (isAbsolute_relative file) (not_mem_partsOf_relative h) root

end Paths

/-! ### What a valid request asks for -/

/-- What is asked for on behalf of an operation: the text of its file, and in a real run that the
file is given another text. -/
structure Touches (root : String) (dryRun : Bool) (op : Operation) (a : Access) : Prop where
  /-- The path stays at or below the root. -/
  below : Below root a.path
  /-- It is that of the file that the operation names. -/
  access : a = .read (targetPath root op.file) ∨
    dryRun = false ∧ ∃ text answer, a = .write (targetPath root op.file) text answer

/-- Runs a valid request on the files below a directory. -/
def patchBelow (root : String) (dryRun : Bool) (r : Request) : Program Report := do
  let before ← readTargets root r.ops .empty
  let (after, result) := r.applyToFiles before
  if dryRun then return patchReport result {}
  match ← writeTargets root before after.entries {} with
  | .error report => return report
  | .ok report => return patchReport result report

section Asking

variable {root : String} {P : Access → Prop} {named : String → Prop}

/-- Only files that operations name are read, and only these have texts then. -/
theorem ensures_readTargets (hP : ∀ file, named file → P (.read (targetPath root file)))
    {ops : List Operation} (hops : ∀ op ∈ ops, named op.file) {files : Dict String}
    (hfiles : ∀ file, files.contains file = true → named file) :
    (readTargets root ops files).Ensures P fun before =>
      ∀ file, before.contains file = true → named file := by
  induction ops generalizing files with
  | nil => exact hfiles
  | cons op ops ih =>
    obtain ⟨hop, hops⟩ := List.forall_mem_cons.1 hops
    rw [readTargets]
    -- Only a name without a text is read, and the text that comes back gets that name.
    split
    · exact ih hops hfiles
    · refine ⟨hP _ hop, fun answer => ?_⟩
      cases answer with
      | error e => exact ih hops hfiles
      | ok text =>
        refine ih hops fun file hfile => ?_
        by_cases heq : file = op.file
        · rw [heq]
          exact hop
        · rw [Dict.contains, Dict.get?_insert, if_neg heq] at hfile
          exact hfiles file hfile

/-- Only files with changed texts are written. -/
theorem ensures_writeTargets {before : Dict String} {files : List (String × String)}
    (hP : ∀ p ∈ files, ∀ answer, P (.write (targetPath root p.1) p.2 answer)) (report : Report) :
    (writeTargets root before files report).Ensures P fun _ => True := by
  induction files generalizing report with
  | nil => trivial
  | cons p files ih =>
    obtain ⟨hp, hfiles⟩ := List.forall_mem_cons.1 hP
    obtain ⟨file, text⟩ := p
    rw [writeTargets]
    split
    · exact ih hfiles report
    · intro answer
      refine ⟨hp answer, ?_⟩
      cases answer with
      | error e => trivial
      | ok _ => exact ih hfiles _

/-- The texts that are left belong to files that had texts before. -/
theorem contains_of_mem_applyToFiles {r : Request} {before : Dict String} {p : String × String}
    (hp : p ∈ (r.applyToFiles before).1.entries) : before.contains p.1 = true := by
  have hget := Dict.mem_entries_iff.1 hp
  rw [Patch.get?_applyToFiles] at hget
  obtain ⟨text, htext, -⟩ := Option.map_eq_some_iff.1 hget
  rw [Dict.contains, htext, Option.isSome_some]

/-- A valid request asks for nothing but on behalf of its operations. -/
theorem ensures_patchBelow (root : String) (dryRun : Bool) {r : Request}
    (h : ∀ op ∈ r.ops, isProjectPath op.file = true) :
    (patchBelow root dryRun r).Ensures (fun a => ∃ op ∈ r.ops, Touches root dryRun op a)
      fun _ => True := by
  have hread : (readTargets root r.ops .empty).Ensures
      (fun a => ∃ op ∈ r.ops, Touches root dryRun op a)
      fun before => ∀ file, before.contains file = true → ∃ op ∈ r.ops, op.file = file := by
    refine ensures_readTargets ?_ (fun op hop => ⟨op, hop, rfl⟩) (by simp [Dict.contains])
    rintro file ⟨op, hop, rfl⟩
    exact ⟨op, hop, below_targetPath (h op hop) root, .inl rfl⟩
  refine hread.bind fun before hbefore => ?_
  cases dryRun with
  | true => trivial
  | false =>
    refine (ensures_writeTargets ?_ {}).bind fun written _ => ?_
    · -- A text that is left belongs to a file that was read, and so to one that is named.
      intro p hp answer
      obtain ⟨op, hop, hfile⟩ := hbefore p.1 (contains_of_mem_applyToFiles hp)
      rw [← hfile]
      exact ⟨op, hop, below_targetPath (h op hop) root, .inr ⟨rfl, _, _, rfl⟩⟩
    · cases written <;> trivial

end Asking

/-! ### What is reported -/

/-- The lines about files that were given another text. -/
def patchedLines (paths : List String) : String :=
  String.join (paths.map fun path => "✓ patched " ++ path ++ "\n")

theorem patchedLines_cons (path : String) (paths : List String) :
    patchedLines (path :: paths) = "✓ patched " ++ path ++ "\n" ++ patchedLines paths := by
  rw [patchedLines, List.map_cons, String.join_cons]
  rfl

/-- A dry run and a real one report the same, but for the lines about files that were written. -/
structure SameResult (dry real : Report) : Prop where
  /-- The exit codes are the same. -/
  exit : real.exit = dry.exit
  /-- The same failures are reported. -/
  err : real.err = dry.err
  /-- Both give up in the same way, or print the same result. -/
  out : real = dry ∨ ∃ (result : Patch.Result) (paths : List String),
    dry.out = result.encode.pretty ++ "\n" ∧
      real.out = patchedLines paths ++ dry.out

section Reports

variable {σ : Type} {k : Storage σ} {s : σ} {root : String}

/-- A text that differs from the one that was read is written before the others. -/
theorem writeTargets_of_ne {before : Dict String} {file text : String}
    (h : before.get? file ≠ some text) (files : List (String × String)) (report : Report) :
    writeTargets root before ((file, text) :: files) report =
      .write (targetPath root file) text fun
        | .error e => .done (.error (report.fail (.storage e.message)))
        | .ok _ => writeTargets root before files
          { report with out := report.out ++ "✓ patched " ++ targetPath root file ++ "\n" } := by
  rw [writeTargets, if_neg h]
  refine congrArg _ (funext fun answer => ?_)
  cases answer <;> rfl

/-- If all writes succeed, then what is reported of them is which files were written. -/
theorem exists_runOn_writeTargets {before : Dict String} {files : List (String × String)}
    {report : Report}
    (h : ∀ a ∈ (writeTargets root before files report).accesses k s, a.IsGranted) :
    ∃ paths, ((writeTargets root before files report).runOn k s).1 =
      .ok { report with out := report.out ++ patchedLines paths } := by
  induction files generalizing report s with
  | nil =>
    refine ⟨[], ?_⟩
    rw [show patchedLines [] = "" from rfl, String.append_empty]
    rfl
  | cons p files ih =>
    obtain ⟨file, text⟩ := p
    by_cases hsame : before.get? file = some text
    · rw [writeTargets_of_eq hsame] at h ⊢
      exact ih h
    · rw [writeTargets_of_ne hsame] at h ⊢
      simp only [Program.accesses, Program.runOn] at h ⊢
      obtain ⟨hfirst, hlater⟩ := List.forall_mem_cons.1 h
      -- This write succeeds, so the others follow it.
      have hanswer : (k.write s (targetPath root file) text).1 = .ok () := hfirst
      rw [hanswer] at hlater ⊢
      obtain ⟨paths, hpaths⟩ := ih hlater
      refine ⟨targetPath root file :: paths, ?_⟩
      rw [hpaths, patchedLines_cons]
      simp only [String.append_assoc]

theorem patchBelow_dry (root : String) (r : Request) : patchBelow root true r =
    readTargets root r.ops .empty >>= fun before =>
      .done (patchReport (r.applyToFiles before).2 {}) := rfl

theorem patchBelow_real (root : String) (r : Request) : patchBelow root false r =
    readTargets root r.ops .empty >>= fun before =>
      writeTargets root before (r.applyToFiles before).1.entries {} >>= fun
        | .error report => .done report
        | .ok report => .done (patchReport (r.applyToFiles before).2 report) := by
  refine bind_congr fun before => bind_congr fun written => ?_
  cases written <;> rfl

/-- The lines about files come before the result, which is the same without them. -/
theorem sameResult_patchReport (result : Patch.Result) (paths : List String) :
    SameResult (patchReport result {})
      (patchReport result { out := "" ++ patchedLines paths }) where
  exit := rfl
  err := rfl
  out := by
    refine .inr ⟨result, paths, ?_, ?_⟩
    · simp [patchReport]
    · simp [patchReport, String.append_assoc]

/-- If all writes succeed, then the real run of a valid request has the result of the dry run. -/
theorem sameResult_patchBelow {r : Request}
    (h : ∀ a ∈ (patchBelow root false r).accesses k s, a.IsGranted) :
    SameResult ((patchBelow root true r).runOn k s).1 ((patchBelow root false r).runOn k s).1 := by
  rw [patchBelow_real, Program.accesses_bind, List.forall_mem_append, Program.accesses_bind,
    List.forall_mem_append] at h
  obtain ⟨paths, hpaths⟩ := exists_runOn_writeTargets h.2.1
  rw [patchBelow_dry, patchBelow_real, Program.runOn_bind, Program.runOn_bind, Program.runOn_bind,
    hpaths]
  exact sameResult_patchReport _ paths

end Reports

/-! ### Settings -/

section Settings

/-- An attempt asks for nothing that may change something. -/
def OnlyLooks {α : Type} (x : Attempt α) : Prop :=
  x.run.Ensures Access.IsLook fun _ => True

variable {α β : Type}

theorem OnlyLooks.bind {x : Attempt α} {f : α → Attempt β} (hx : OnlyLooks x)
    (hf : ∀ a, OnlyLooks (f a)) : OnlyLooks (x >>= f) := by
  refine Program.Ensures.bind (f := ExceptT.bindCont f) hx fun outcome _ => ?_
  cases outcome with
  | error e => trivial
  | ok a => exact hf a

theorem onlyLooks_needed (path : String) : OnlyLooks (needed path) := by
  refine ⟨trivial, fun answer => ?_⟩
  cases answer <;> trivial

theorem onlyLooks_loadConfig (path : String) : OnlyLooks (loadConfig path) := by
  refine (onlyLooks_needed path).bind fun text => ?_
  exact OnlyLooks.bind (x := liftM (Config.ofText text)) trivial fun config => trivial

theorem onlyLooks_loadCatalog (path : String) : OnlyLooks (loadCatalog path) := by
  refine ⟨trivial, fun answer => ?_⟩
  cases answer <;> trivial

theorem onlyLooks_openSession (config : Config) : OnlyLooks (openSession config) := by
  unfold openSession
  split
  · trivial
  · split
    · trivial
    · exact (onlyLooks_loadCatalog _).bind fun palette => trivial

/-- Loading the settings changes nothing. -/
theorem onlyLooks_loadSession (config : Option String) : OnlyLooks (loadSession config) := by
  cases config with
  | some path => exact (onlyLooks_loadConfig path).bind onlyLooks_openSession
  | none =>
    refine ⟨trivial, fun there => ?_⟩
    cases there with
    | true => exact (onlyLooks_loadConfig _).bind onlyLooks_openSession
    | false => exact onlyLooks_openSession {}

end Settings

/-! ### The whole command -/

section Command

variable {α : Type}

/-- Goes on with a result, and reports a failure. -/
def orReport (next : α → Program Report) : Except Failure α → Program Report
  | .ok a => next a
  | .error e => .done (Report.fail {} e)

theorem reported_eq (x : Attempt Report) : reported x = x.run >>= orReport .done := by
  refine bind_congr fun outcome => ?_
  cases outcome <;> rfl

/-- What is reported of several steps: the failure of the first one, or what is reported of the
others. -/
theorem reported_bind (x : Attempt α) (f : α → Attempt Report) :
    reported (x >>= f) = x.run >>= orReport fun a => reported (f a) := by
  have hassoc := Program.bind_assoc x.run (ExceptT.bindCont f) (orReport .done)
  rw [reported_eq]
  refine hassoc.trans (bind_congr fun outcome => ?_)
  cases outcome with
  | ok a => exact (reported_eq (f a)).symm
  | error e => rfl

theorem reported_lift_bind (p : Program α) (f : α → Attempt Report) :
    reported (liftM p >>= f) = p >>= fun a => reported (f a) := by
  rw [reported_bind]
  exact Program.bind_assoc p _ _

/-- The request that the answer to the reading of its file gives. -/
def requestOf (path : String) : Except Fault String → Except Failure Request
  | .ok text => Request.read text
  | .error e => .error (.config (.unreadable path e.message))

/-- A patch reads the request and gives up if it is not valid. -/
theorem reported_patch (request root : String) (dryRun : Bool) :
    reported (patch request root dryRun) = .read request fun answer =>
      orReport (patchBelow root dryRun) (requestOf request answer) := by
  rw [patch, reported_bind]
  change Program.read request _ = _
  refine congrArg _ (funext fun answer => ?_)
  cases answer with
  | error e => rfl
  | ok text =>
    change reported _ = _
    rw [reported_bind, requestOf]
    cases hread : Request.read text with
    | error e => rfl
    | ok r =>
      change reported _ = _
      refine (reported_lift_bind _ _).trans (bind_congr fun before => ?_)
      -- The second check of the request passes, for what was read is valid.
      have hfiles : r.patchFiles before = .ok (r.applyToFiles before) := by
        rw [Request.patchFiles, validate_of_read hread]
        rfl
      rw [hfiles, reported_bind]
      change reported _ = _
      cases dryRun with
      | true => rfl
      | false =>
        refine (reported_lift_bind _ _).trans (bind_congr fun written => ?_)
        cases written <;> rfl

/-- The command loads the settings and then patches. -/
theorem run_patch (config : Option String) (request root : String) (dryRun : Bool) :
    Invocation.run ⟨config, .patch request root dryRun⟩ =
      (loadSession config).run >>= orReport fun _ => reported (patch request root dryRun) :=
  reported_bind (loadSession config) _

variable {σ : Type}

/-- The text of a file is that of a valid request. -/
def Requests (k : Storage σ) (s : σ) (path : String) (r : Request) : Prop :=
  ∃ text, k.read s path = .ok text ∧ Request.read text = .ok r

/-- The settings are loaded, and then the command gives up for want of a valid request, or runs the
valid request. -/
theorem run_patch_cases (k : Storage σ) (s : σ) (config : Option String) (request root : String) :
    (∃ e asked, (asked = [] ∨ asked = [.read request]) ∧ ∀ dryRun,
      (Invocation.run ⟨config, .patch request root dryRun⟩).runOn k s = (Report.fail {} e, s) ∧
      (Invocation.run ⟨config, .patch request root dryRun⟩).accesses k s =
        (loadSession config).run.accesses k s ++ asked) ∨
    ∃ r, Requests k s request r ∧ ∀ dryRun,
      (Invocation.run ⟨config, .patch request root dryRun⟩).runOn k s =
        (patchBelow root dryRun r).runOn k s ∧
      (Invocation.run ⟨config, .patch request root dryRun⟩).accesses k s =
        (loadSession config).run.accesses k s ++
          .read request :: (patchBelow root dryRun r).accesses k s := by
  -- Loading the settings changes nothing, so the request is read from what is there at the start.
  have hsame : ((loadSession config).run.runOn k s).2 = s :=
    Program.runOn_of_isLook ((onlyLooks_loadSession config).mem_accesses k s)
  simp only [run_patch, Program.runOn_bind, Program.accesses_bind, hsame]
  cases ((loadSession config).run.runOn k s).1 with
  | error e => exact .inl ⟨e, [], .inl rfl, fun dryRun => ⟨rfl, rfl⟩⟩
  | ok session =>
    simp only [orReport, reported_patch, Program.runOn, Program.accesses]
    cases hrequest : requestOf request (k.read s request) with
    | error e => exact .inl ⟨e, [.read request], .inr rfl, fun dryRun => ⟨rfl, rfl⟩⟩
    | ok r =>
      refine .inr ⟨r, ?_, fun dryRun => ⟨rfl, rfl⟩⟩
      unfold requestOf at hrequest
      split at hrequest
      · next text htext => exact ⟨text, htext, hrequest⟩
      · cases hrequest

end Command

/-- What the command for patches does to a storage. -/
structure Contained {σ : Type} (k : Storage σ) (s : σ) (config : Option String)
    (request root : String) : Prop where
  /-- Loading the settings changes nothing. -/
  settings : ∀ a ∈ (loadSession config).run.accesses k s, a.IsLook
  /-- After that nothing is asked for but the request, and what its operations ask for if it is
  valid. -/
  touches : ∀ dryRun, ∃ asked,
    (Invocation.run ⟨config, .patch request root dryRun⟩).accesses k s =
      (loadSession config).run.accesses k s ++ asked ∧
    (asked = [] ∨ ∃ touched, asked = .read request :: touched ∧ ∀ a ∈ touched,
      ∃ r, Requests k s request r ∧ ∃ op ∈ r.ops, Touches root dryRun op a)
  /-- In a dry run and without a valid request nothing changes. -/
  unchanged : ∀ dryRun, (dryRun = true ∨ ∀ r, ¬ Requests k s request r) →
    ((Invocation.run ⟨config, .patch request root dryRun⟩).runOn k s).2 = s
  /-- The dry run has the result of the real run if that can write all that it has to. -/
  sameResult : (∀ a ∈ (Invocation.run ⟨config, .patch request root false⟩).accesses k s,
      a.IsGranted) →
    SameResult ((Invocation.run ⟨config, .patch request root true⟩).runOn k s).1
      ((Invocation.run ⟨config, .patch request root false⟩).runOn k s).1

/-- What the command for patches does to a folder. -/
structure OnlyNamedChange (d d' : Folder) (request root : String) : Prop where
  /-- The same files and folders are there. -/
  places : d.SamePlaces d'
  /-- A file with another text is named by an operation of a valid request, and at or below the
  place of the root. -/
  named : ∀ key, d'.files.get? key ≠ d.files.get? key →
    (∃ r, Requests Folder.storage d request r ∧
      ∃ op ∈ r.ops, d.target? (targetPath root op.file) = some key) ∧
    ∃ rest, key = Spot.path (normal root ++ rest) ∧ ".." ∉ rest

section Main

variable {d d₁ : Folder} {root : String}

/-- Writing texts to files that are there leaves the files and folders where they are, and changes
no other files, even if some text cannot be written. -/
theorem get?_of_writeTargets {before : Dict String} {files : List (String × String)}
    (htargets : HasTargets d root before files) (hplaces : d.SamePlaces d₁) (report : Report) :
    d.SamePlaces ((writeTargets root before files report).runIn d₁).2 ∧
      ∀ key, (∀ p ∈ files, d.target? (targetPath root p.1) ≠ some key) →
        ((writeTargets root before files report).runIn d₁).2.files.get? key =
          d₁.files.get? key := by
  induction files generalizing report d₁ with
  | nil => exact ⟨hplaces, fun key _ => rfl⟩
  | cons p files ih =>
    obtain ⟨hfirst, hlater⟩ := List.forall_mem_cons.1 htargets
    by_cases hsame : before.get? p.1 = some p.2
    · rw [writeTargets_of_eq hsame]
      obtain ⟨hplaces, hget⟩ := ih hlater hplaces report
      exact ⟨hplaces, fun key hkey => hget key (List.forall_mem_cons.1 hkey).2⟩
    · rcases runIn_writeTargets_of_ne hsame root files d₁ report with
        ⟨e, -, hrun⟩ | ⟨d', hwrite, hrun⟩
      · rw [hrun]
        exact ⟨hplaces, fun key _ => rfl⟩
      · -- The targets are those at the start, and the places have stayed the same since then.
        obtain ⟨target, htarget, hthere⟩ := hfirst hsame
        rw [← hplaces.isSome_get?_eq] at hthere
        obtain ⟨hwritten, hget'⟩ :=
          Folder.get?_of_write (hplaces.target?_eq _ ▸ htarget) hthere hwrite
        rw [hrun]
        obtain ⟨hplaces, hget⟩ := ih hlater (hplaces.trans hwritten) _
        refine ⟨hplaces, fun key hkey => ?_⟩
        obtain ⟨hother, hkey⟩ := List.forall_mem_cons.1 hkey
        rw [hget key hkey, hget', if_neg]
        rintro rfl
        exact hother htarget

/-- A valid request changes no files of a folder but those that its operations name. -/
theorem get?_of_patchBelow (d : Folder) (root : String) (dryRun : Bool) (r : Request) :
    d.SamePlaces ((patchBelow root dryRun r).runIn d).2 ∧
      ∀ key, (∀ op ∈ r.ops, d.target? (targetPath root op.file) ≠ some key) →
        ((patchBelow root dryRun r).runIn d).2.files.get? key = d.files.get? key := by
  obtain ⟨before, hrun, hread⟩ := exists_isRead d root r.ops
  cases dryRun with
  | true =>
    rw [patchBelow_dry, Program.runIn_bind, hrun]
    exact ⟨.refl d, fun key _ => rfl⟩
  | false =>
    rw [patchBelow_real, Program.runIn_bind, hrun, Program.runIn_bind]
    have htargets : HasTargets d root before (r.applyToFiles before).1.entries := hread.hasTargets
    have hwrite := get?_of_writeTargets htargets (.refl d) {}
    generalize (writeTargets root before (r.applyToFiles before).1.entries {}).runIn d = written
      at hwrite ⊢
    obtain ⟨outcome, d'⟩ := written
    obtain ⟨hplaces, hget⟩ := hwrite
    -- Every text that may be written is left of one that was read for an operation.
    have hkept (key : String)
        (hkey : ∀ op ∈ r.ops, d.target? (targetPath root op.file) ≠ some key) :
        d'.files.get? key = d.files.get? key := by
      refine hget key fun p hp => ?_
      obtain ⟨text, htext⟩ := Option.isSome_iff_exists.1 (contains_of_mem_applyToFiles hp)
      obtain ⟨⟨op, hop, hfile⟩, -⟩ := hread.exists_target htext
      rw [← hfile]
      exact hkey op hop
    cases outcome <;> exact ⟨hplaces, hkept⟩

theorem Touches.isLook {op : Operation} {a : Access} (h : Touches root true op a) : a.IsLook := by
  rcases h.access with rfl | ⟨hreal, -⟩
  · trivial
  · cases hreal

theorem contained {σ : Type} (k : Storage σ) (s : σ) (config : Option String)
    (request root : String) : Contained k s config request root := by
  have hsettings := (onlyLooks_loadSession config).mem_accesses k s
  rcases run_patch_cases k s config request root with
    ⟨e, asked, hasked, hrun⟩ | ⟨r, hrequests, hrun⟩
  · refine ⟨hsettings, fun dryRun => ⟨asked, (hrun dryRun).2, ?_⟩, fun dryRun _ => ?_, fun _ => ?_⟩
    · rcases hasked with rfl | rfl
      · exact .inl rfl
      · exact .inr ⟨[], rfl, fun a ha => absurd ha List.not_mem_nil⟩
    · rw [(hrun dryRun).1]
    · rw [(hrun true).1, (hrun false).1]
      exact ⟨rfl, rfl, .inl rfl⟩
  · have hvalid : ∀ op ∈ r.ops, isProjectPath op.file = true := by
      obtain ⟨text, -, hread⟩ := hrequests
      exact isProjectPath_of_read hread
    have htouches (dryRun : Bool) := (ensures_patchBelow root dryRun hvalid).mem_accesses k s
    refine ⟨hsettings, fun dryRun => ⟨_, (hrun dryRun).2, .inr ⟨_, rfl, fun a ha => ?_⟩⟩,
      fun dryRun hnone => ?_, fun hgranted => ?_⟩
    · exact ⟨r, hrequests, htouches dryRun a ha⟩
    · -- There is a valid request, so nothing but a dry run is left.
      obtain rfl := hnone.resolve_right fun hnone => hnone r hrequests
      rw [(hrun true).1]
      refine Program.runOn_of_isLook fun a ha => ?_
      obtain ⟨op, -, htouch⟩ := htouches true a ha
      exact htouch.isLook
    · rw [(hrun true).1, (hrun false).1]
      rw [(hrun false).2] at hgranted
      exact sameResult_patchBelow
        (List.forall_mem_cons.1 (List.forall_mem_append.1 hgranted).2).2

/-- Every file that a patch changes is named by an operation, and below the root. -/
theorem onlyNamedChange (d : Folder) (config : Option String) (request root : String)
    (dryRun : Bool) : OnlyNamedChange d
      ((Invocation.run ⟨config, .patch request root dryRun⟩).runIn d).2 request root := by
  rw [← Program.runOn_storage]
  rcases run_patch_cases Folder.storage d config request root with
    ⟨e, asked, -, hrun⟩ | ⟨r, hrequests, hrun⟩
  · rw [(hrun dryRun).1]
    exact ⟨.refl d, fun key hne => absurd rfl hne⟩
  · rw [(hrun dryRun).1, Program.runOn_storage]
    obtain ⟨hplaces, hkept⟩ := get?_of_patchBelow d root dryRun r
    refine ⟨hplaces, fun key hne => ?_⟩
    -- A file that no operation leads to is left as it is.
    obtain ⟨op, hop, htarget⟩ : ∃ op ∈ r.ops, d.target? (targetPath root op.file) = some key := by
      by_contra hnone
      exact hne (hkept key fun op hop htarget => hnone ⟨op, hop, htarget⟩)
    refine ⟨⟨r, hrequests, op, hop, htarget⟩, ?_⟩
    obtain ⟨text, -, hread⟩ := hrequests
    obtain ⟨rest, hplace, hup⟩ := (below_targetPath (isProjectPath_of_read hread op hop) root).place
    exact ⟨rest, by rw [Folder.eq_path_of_target? htarget, hplace], hup⟩

/-- The command for patches asks for nothing but the settings, the request and the files that the
operations of a valid request name, each by a path that stays at or below the root. Without a valid
request and in a dry run nothing changes, and the dry run has the result of a real run that can
write all that it has to. In a folder no other files change than those that operations name. -/
theorem contained_run (config : Option String) (request root : String) :
    (∀ (σ : Type) (k : Storage σ) (s : σ), Contained k s config request root) ∧
      ∀ (d : Folder) (dryRun : Bool), OnlyNamedChange d
        ((Invocation.run ⟨config, .patch request root dryRun⟩).runIn d).2 request root :=
  ⟨fun _ k s => contained k s config request root,
    fun d dryRun => onlyNamedChange d config request root dryRun⟩

/-- A folder with two files of one name, one of them below `p`, and with a request that names a file
`f` with slashes in front. -/
def slashedFolder : Folder where
  files := Dict.ofList [("f", "ab"), ("p/f", "ab"),
    ("r.json", "\x7b\"ops\":[\x7b\"op\":\"textEdit\",\"file\":\"//./f\"," ++
      "\"find\":\"a\",\"replace\":\"x\"\x7d]\x7d")]

/-- The slashes do not lead to the file outside the root; the other file changes, and the dry run
reports the same. -/
theorem contained_run_slashed : ∃ real after,
    (Invocation.run ⟨none, .patch "r.json" "p" false⟩).runIn slashedFolder = (real, after) ∧
      real.exit = 0 ∧ after.files.get? "f" = some "ab" ∧ after.files.get? "p/f" = some "xb" ∧
      OnlyNamedChange slashedFolder after "r.json" "p" ∧
      SameResult
        ((Invocation.run ⟨none, .patch "r.json" "p" true⟩).runOn Folder.storage slashedFolder).1
        real := by
  obtain ⟨hcontained, honly⟩ := contained_run none "r.json" "p"
  have hgranted : ∀ a ∈ (Invocation.run ⟨none, .patch "r.json" "p" false⟩).accesses
      Folder.storage slashedFolder, a.IsGranted := by decide +kernel
  have hsame := (hcontained Folder Folder.storage slashedFolder).sameResult hgranted
  rw [Program.runOn_storage (Invocation.run ⟨none, .patch "r.json" "p" false⟩)] at hsame
  refine ⟨_, _, (Prod.eta _).symm, ?_, ?_, ?_, honly slashedFolder false, hsame⟩
  all_goals decide +kernel

end Main

end Mockup.CommandLine
