import Mockup.CommandLine.Commands
import Mockup.Proofs.Disk.Folder
import Mockup.Proofs.Patch.Files

/-!
# Patches of files on the disk

A patch reads the file of every operation under the name that the operation gives it, runs the
operations on the texts, and writes the texts that changed in the order of the names. Where one file
has several names, its text is read under each of them, and each result is written over the one
before.

* `naming d root key ops` — the operations that name a file, in whatever way.
* `LastChange ops text t` — what is left of a text by operations under several names.
* `Patched root ops result d d'` — what a patch leaves of a folder.

## Main results

* `runIn_readTargets`: the texts that are read.
* `get?_of_runIn_writeTargets`: what a series of writes leaves in each file.
* `patched_of_run`: what a patch leaves in each file.
* `run_patch_twoNames`: a change that is reported and lost.
-/

namespace Mockup.CommandLine

open Disk
open Patch (Operation Request under textAfter diffsAfter)

/-! ### Attempts -/

section Attempts

variable {α β : Type} {d d' : Folder}

/-- An attempt in several steps has a result if its first step has one, and the others have one on
the folder that the first one leaves. -/
theorem run_bind_eq_ok_iff {x : Attempt α} {f : α → Attempt β} {b : β} :
    (x >>= f).run.runIn d = (.ok b, d') ↔
      ∃ a d₁, x.run.runIn d = (.ok a, d₁) ∧ (f a).run.runIn d₁ = (.ok b, d') := by
  have hbind : (x >>= f).run.runIn d =
      (ExceptT.bindCont f (x.run.runIn d).1).runIn (x.run.runIn d).2 :=
    Program.runIn_bind x.run (ExceptT.bindCont f) d
  rw [hbind]
  obtain ⟨r, d₁⟩ := x.run.runIn d
  cases r with
  | error e =>
    constructor
    · intro h
      cases h
    · rintro ⟨a, d₁, h, -⟩
      cases h
  | ok a =>
    constructor
    · intro h
      exact ⟨a, d₁, rfl, h⟩
    · rintro ⟨a, d₁, h, hf⟩
      cases h
      exact hf

/-- A program that cannot fail has the result that it has. -/
theorem run_lift_eq_ok_iff {p : Program α} {a : α} :
    (liftM p : Attempt α).run.runIn d = (.ok a, d') ↔ p.runIn d = (a, d') := by
  have hlift : (liftM p : Attempt α).run.runIn d = (.ok (p.runIn d).1, (p.runIn d).2) :=
    Program.runIn_bind p (fun a => .done (Except.ok a)) d
  rw [hlift]
  constructor
  · intro h
    cases h
    rfl
  · intro h
    rw [h]

/-- An outcome leaves the folder as it is. -/
theorem run_liftExcept_eq_ok_iff {e : Except Failure α} {a : α} :
    (liftM e : Attempt α).run.runIn d = (.ok a, d') ↔ e = .ok a ∧ d' = d := by
  have hlift : (liftM e : Attempt α).run.runIn d = (e, d) := rfl
  rw [hlift]
  constructor
  · intro h
    cases h
    exact ⟨rfl, rfl⟩
  · rintro ⟨rfl, rfl⟩
    rfl

theorem read_of_run_needed {path text : String} (h : (needed path).run.runIn d = (.ok text, d')) :
    d.read path = .ok text ∧ d' = d := by
  obtain ⟨outcome, d₁, hread, hgo⟩ := run_bind_eq_ok_iff.1 h
  cases run_lift_eq_ok_iff.1 hread
  split at hgo
  · next text' htext =>
    cases hgo
    exact ⟨htext, rfl⟩
  · cases hgo

end Attempts

/-! ### Names of files -/

/-- The operations that name the file with a key, in whatever way. -/
def naming (d : Folder) (root key : String) (ops : List Operation) : List Operation :=
  ops.filter fun op => d.target? (targetPath root op.file) = some key

/-- No two operations name the file with a key in different ways. -/
def OneName (d : Folder) (root key : String) (ops : List Operation) : Prop :=
  ∀ op ∈ naming d root key ops, ∀ op' ∈ naming d root key ops, op.file = op'.file

/-- What is left of a text by operations that name its file in several ways: what those under the
last name leave of it that change it at all. -/
inductive LastChange (ops : List Operation) (text : String) : String → Prop
  /-- The operations under each name leave the text as it is. -/
  | unchanged (h : ∀ op ∈ ops, textAfter (under op.file ops) text = text) :
    LastChange ops text text
  /-- Those under one name change it, and those under later names do not. -/
  | changed {op : Operation} (hop : op ∈ ops) (hchange : textAfter (under op.file ops) text ≠ text)
    (hlater : ∀ op' ∈ ops, op.file < op'.file → textAfter (under op'.file ops) text = text) :
    LastChange ops text (textAfter (under op.file ops) text)

section Names

variable {d : Folder} {root key : String} {ops : List Operation} {op : Operation}

theorem mem_naming_iff : op ∈ naming d root key ops ↔
    op ∈ ops ∧ d.target? (targetPath root op.file) = some key := by
  rw [naming, List.mem_filter, decide_eq_true_eq]

/-- All operations under a name of a file are among those that name it. -/
theorem under_naming (h : d.target? (targetPath root op.file) = some key) :
    under op.file (naming d root key ops) = under op.file ops := by
  rw [under, naming, List.filter_filter, under]
  refine List.filter_congr fun op' _ => ?_
  by_cases hfile : op'.file = op.file
  · simp [hfile, h]
  · simp [hfile]

/-- If a file is named in one way only, then the operations under that name are those that name it.
-/
theorem under_eq_self {named : List Operation} (h : ∀ op' ∈ named, op.file = op'.file) :
    under op.file named = named := by
  refine List.filter_eq_self.2 fun op' hop' => ?_
  rw [decide_eq_true_eq]
  exact (h op' hop').symm

/-- The operations that name a file in one way leave what they leave in order. -/
theorem LastChange.eq_textAfter {text t : String} (h : LastChange ops text t)
    (hname : ∀ op ∈ ops, ∀ op' ∈ ops, op.file = op'.file) : t = textAfter ops text := by
  cases h with
  | unchanged h =>
    -- Without operations nothing is left to do, and with some the first one has the only name.
    cases ops with
    | nil => rfl
    | cons op ops =>
      have hleft := h op List.mem_cons_self
      rw [under_eq_self (hname op List.mem_cons_self)] at hleft
      exact hleft.symm
  | changed hop hchange hlater => rw [under_eq_self (hname _ hop)]

end Names

/-! ### Reading -/

section Targets

variable {d : Folder} {root : String}

/-- The text of the file that an operation names is read, unless there is a text for its name
already or the file cannot be read. -/
theorem runIn_readTargets_cons (d : Folder) (root : String) (op : Operation) (ops : List Operation)
    (files : Dict String) : ∃ files' : Dict String,
    (readTargets root (op :: ops) files).runIn d = (readTargets root ops files').runIn d ∧
      ∀ file, files'.get? file = (files.get? file).or (if file = op.file then
        (d.read (targetPath root op.file)).toOption else none) := by
  rw [readTargets]
  by_cases hcontains : files.contains op.file = true
  · rw [if_pos hcontains]
    refine ⟨files, rfl, fun file => ?_⟩
    -- The text for this name stays, and the other names have what they had.
    by_cases hfile : file = op.file
    · obtain ⟨text, htext⟩ := Option.isSome_iff_exists.1 hcontains
      rw [hfile, htext, Option.some_or]
    · rw [if_neg hfile, Option.or_none]
  · have hnone : files.get? op.file = none := by simpa [Dict.contains] using hcontains
    have hstep : ((Program.readFile (targetPath root op.file)).runIn d) =
        (d.read (targetPath root op.file), d) := rfl
    rw [if_neg hcontains, Program.runIn_bind, hstep]
    cases d.read (targetPath root op.file) with
    | ok text =>
      refine ⟨files.insert op.file text, rfl, fun file => ?_⟩
      rw [Dict.get?_insert]
      by_cases hfile : file = op.file
      · rw [if_pos hfile, if_pos hfile, hfile, hnone, Option.none_or]
        rfl
      · rw [if_neg hfile, if_neg hfile, Option.or_none]
    | error e =>
      have herror : (Except.error e).toOption = (none : Option String) := rfl
      refine ⟨files, rfl, fun file => ?_⟩
      rw [herror, ite_self, Option.or_none]

/-- The texts that are read: for each name the text of the file, if it can be read. -/
theorem runIn_readTargets (d : Folder) (root : String) (ops : List Operation)
    (files : Dict String) : ∃ before,
    (readTargets root ops files).runIn d = (before, d) ∧ ∀ file, before.get? file =
      (files.get? file).or (if file ∈ ops.map Operation.file then
        (d.read (targetPath root file)).toOption else none) := by
  induction ops generalizing files with
  | nil =>
    refine ⟨files, rfl, fun file => ?_⟩
    rw [List.map_nil, if_neg List.not_mem_nil, Option.or_none]
  | cons op ops ih =>
    obtain ⟨files', hstep, hget'⟩ := runIn_readTargets_cons d root op ops files
    obtain ⟨before, hrun, hget⟩ := ih files'
    refine ⟨before, hstep.trans hrun, fun file => ?_⟩
    rw [hget, hget', Option.or_assoc]
    congr 1
    -- A name that comes again is not read again, but the file has the same text.
    by_cases hfile : file = op.file
    · subst hfile
      rw [if_pos rfl, List.map_cons, if_pos List.mem_cons_self]
      split
      · exact Option.or_self
      · exact Option.or_none
    · rw [if_neg hfile, Option.none_or, List.map_cons]
      simp only [List.mem_cons, hfile, false_or]

/-- Whether a text for a name is written to the file with a key. -/
def Writes (d : Folder) (root key : String) (before : Dict String) (p : String × String) : Prop :=
  before.get? p.1 ≠ some p.2 ∧ d.target? (targetPath root p.1) = some key

instance (d : Folder) (root key : String) (before : Dict String) (p : String × String) :
    Decidable (Writes d root key before p) :=
  inferInstanceAs (Decidable (_ ∧ _))

/-- The text in the file with a key after several texts were written in order. -/
def lastWritten (d : Folder) (root key : String) (before : Dict String)
    (files : List (String × String)) (start : Option String) : Option String :=
  files.foldl (fun current p => if Writes d root key before p then some p.2 else current) start

/-- Every text that is written belongs to a file that is there. -/
def HasTargets (d : Folder) (root : String) (before : Dict String)
    (files : List (String × String)) : Prop :=
  ∀ p ∈ files, before.get? p.1 ≠ some p.2 →
    ∃ key, d.target? (targetPath root p.1) = some key ∧ (d.files.get? key).isSome = true

section Writing

variable {before : Dict String} {files : List (String × String)} {d₁ d₂ : Folder} {r : Report}

/-- Texts that are the ones that were read are passed over. -/
theorem writeTargets_of_eq {file text : String} (h : before.get? file = some text) :
    writeTargets root before ((file, text) :: files) r = writeTargets root before files r := by
  rw [writeTargets, if_pos h]

/-- Writing goes on after a text was written, and ends where one could not be. -/
theorem runIn_writeTargets_of_ne {file text : String} (h : before.get? file ≠ some text)
    (root : String) (files : List (String × String)) (d₁ : Folder) (r : Report) :
    (∃ e, d₁.write (targetPath root file) text = .error e ∧
      (writeTargets root before ((file, text) :: files) r).runIn d₁ =
        (.error (r.fail (.storage e.message)), d₁)) ∨
    ∃ d', d₁.write (targetPath root file) text = .ok d' ∧
      (writeTargets root before ((file, text) :: files) r).runIn d₁ =
        (writeTargets root before files { r with
          out := r.out ++ "✓ patched " ++ targetPath root file ++ "\n" }).runIn d' := by
  have hstep : (Program.writeFile (targetPath root file) text).runIn d₁ =
      Program.changed d₁ (d₁.write (targetPath root file) text) := rfl
  rw [writeTargets, if_neg h, Program.runIn_bind, hstep]
  cases d₁.write (targetPath root file) text with
  | error e => exact .inl ⟨e, rfl, rfl⟩
  | ok d' => exact .inr ⟨d', rfl, rfl⟩

/-- A write that fails ends with the exit code for failures. -/
theorem exit_of_runIn_writeTargets {failed : Report}
    (h : (writeTargets root before files r).runIn d₁ = (.error failed, d₂)) : failed.exit = 2 := by
  induction files generalizing r d₁ with
  | nil => cases h
  | cons p files ih =>
    by_cases hsame : before.get? p.1 = some p.2
    · rw [writeTargets_of_eq hsame] at h
      exact ih h
    · rcases runIn_writeTargets_of_ne hsame root files d₁ r with
        ⟨e, -, hrun⟩ | ⟨d', -, hrun⟩
      · cases hrun.symm.trans h
        rfl
      · exact ih (hrun.symm.trans h)

/-- Writing texts to files that are there leaves the files and folders where they are, and in each
file the last text that is written to it. -/
theorem get?_of_runIn_writeTargets {report : Report} (htargets : HasTargets d root before files)
    (hplaces : d.SamePlaces d₁)
    (h : (writeTargets root before files r).runIn d₁ = (.ok report, d₂)) : d.SamePlaces d₂ ∧
      ∀ key, d₂.files.get? key = lastWritten d root key before files (d₁.files.get? key) := by
  induction files generalizing r d₁ with
  | nil =>
    cases h
    exact ⟨hplaces, fun key => rfl⟩
  | cons p files ih =>
    obtain ⟨hfirst, hlater⟩ := List.forall_mem_cons.1 htargets
    by_cases hsame : before.get? p.1 = some p.2
    · rw [writeTargets_of_eq hsame] at h
      obtain ⟨hplaces, hget⟩ := ih hlater hplaces h
      refine ⟨hplaces, fun key => ?_⟩
      have hnot : ¬ Writes d root key before p := fun hwrites => hwrites.1 hsame
      rw [hget, lastWritten, lastWritten, List.foldl_cons, if_neg hnot]
    · rcases runIn_writeTargets_of_ne hsame root files d₁ r with
        ⟨e, -, hrun⟩ | ⟨d', hwrite, hrun⟩
      · cases hrun.symm.trans h
      · -- The targets are those at the start, and the places have stayed the same since then.
        obtain ⟨target, htarget, hthere⟩ := hfirst hsame
        rw [← hplaces.target?_eq] at htarget
        rw [← hplaces.isSome_get?_eq] at hthere
        obtain ⟨hwritten, hget'⟩ := Folder.get?_of_write htarget hthere hwrite
        rw [hplaces.target?_eq] at htarget
        obtain ⟨hplaces, hget⟩ := ih hlater (hplaces.trans hwritten) (hrun.symm.trans h)
        refine ⟨hplaces, fun key => ?_⟩
        have hiff : Writes d root key before p ↔ key = target := by
          rw [Writes, htarget, and_iff_right hsame, Option.some_inj, eq_comm]
        rw [hget, hget', lastWritten, lastWritten, List.foldl_cons]
        simp only [hiff]

/-- The text that is written last is one after which no other is written. -/
theorem lastWritten_cases {key : String} (hsorted : files.Pairwise fun a b => a.1 < b.1)
    (start : Option String) :
    (lastWritten d root key before files start = start ∧
      ∀ p ∈ files, ¬ Writes d root key before p) ∨
    ∃ p ∈ files, Writes d root key before p ∧
      lastWritten d root key before files start = some p.2 ∧
      ∀ q ∈ files, p.1 < q.1 → ¬ Writes d root key before q := by
  induction files generalizing start with
  | nil => exact .inl ⟨rfl, fun p hp => absurd hp List.not_mem_nil⟩
  | cons p files ih =>
    obtain ⟨hp, hsorted⟩ := List.pairwise_cons.1 hsorted
    have hcons : lastWritten d root key before (p :: files) start =
      lastWritten d root key before files
        (if Writes d root key before p then some p.2 else start) := rfl
    rw [hcons]
    rcases ih hsorted (if Writes d root key before p then some p.2 else start) with
      ⟨heq, hnone⟩ | ⟨q, hq, hwrites, heq, hlast⟩
    · -- Nothing is written later, so the first text stays if it is written at all.
      by_cases hwrites : Writes d root key before p
      · refine .inr ⟨p, List.mem_cons_self, hwrites, ?_, ?_⟩
        · rw [heq, if_pos hwrites]
        · intro q hq hlt
          rcases List.mem_cons.1 hq with rfl | hq
          · exact absurd hlt (String.lt_irrefl _)
          · exact hnone q hq
      · refine .inl ⟨?_, List.forall_mem_cons.2 ⟨hwrites, hnone⟩⟩
        rw [heq, if_neg hwrites]
    · -- A later text stays; the first name comes before its name and not after it.
      refine .inr ⟨q, List.mem_cons_of_mem _ hq, hwrites, heq, ?_⟩
      intro q' hq' hlt
      rcases List.mem_cons.1 hq' with rfl | hq'
      · exact absurd hlt (String.lt_asymm (hp q hq))
      · exact hlast q' hq' hlt

end Writing

end Targets

/-! ### Patches -/

/-- The steps of a patch that is no dry run. -/
theorem steps_of_run_patch {request root : String} {d d' : Folder} {report : Report}
    (h : (patch request root false).run.runIn d = (.ok report, d')) :
    ∃ text r before d₁ written, d.read request = .ok text ∧ Request.read text = .ok r ∧
      (readTargets root r.ops .empty).runIn d = (before, d₁) ∧
      (writeTargets root before (r.applyToFiles before).1.entries {}).runIn d₁ = (written, d') ∧
      (written = .error report ∨ ∃ printed, written = .ok printed ∧
        report = patchReport (r.applyToFiles before).2 printed) := by
  rw [patch] at h
  obtain ⟨text, d₁, htext, hread⟩ := run_bind_eq_ok_iff.1 h
  obtain ⟨htext, rfl⟩ := read_of_run_needed htext
  obtain ⟨r, d₂, hr, htargets⟩ := run_bind_eq_ok_iff.1 hread
  obtain ⟨hrequest, rfl⟩ := run_liftExcept_eq_ok_iff.1 hr
  obtain ⟨before, d₃, hbefore, hpatch⟩ := run_bind_eq_ok_iff.1 htargets
  obtain ⟨⟨after, result⟩, d₄, hafter, hwrite⟩ := run_bind_eq_ok_iff.1 hpatch
  obtain ⟨hresult, rfl⟩ := run_liftExcept_eq_ok_iff.1 hafter
  obtain ⟨written, d₅, hwritten, hdone⟩ := run_bind_eq_ok_iff.1 hwrite
  have hbefore := run_lift_eq_ok_iff.1 hbefore
  have hwritten := run_lift_eq_ok_iff.1 hwritten
  obtain ⟨_, -, hfiles⟩ := bind_eq_ok_iff.1 hresult
  cases hfiles
  -- A file that cannot be written ends the patch with the report so far.
  cases written with
  | error report' =>
    cases hdone
    exact ⟨text, r, before, _, _, htext, hrequest, hbefore, hwritten, .inl rfl⟩
  | ok printed =>
    cases hdone
    exact ⟨text, r, before, _, _, htext, hrequest, hbefore, hwritten, .inr ⟨printed, rfl, rfl⟩⟩

/-- What a patch leaves of a folder, with what it reports of the operations. -/
structure Patched (root : String) (ops : List Operation) (result : Patch.Result)
    (d d' : Folder) : Prop where
  /-- The same files and folders are there. -/
  places : d.SamePlaces d'
  /-- Each file holds what the operations under the last of its names that change it leave. -/
  lastChange : ∀ key text, d.files.get? key = some text →
    ∃ t, d'.files.get? key = some t ∧ LastChange (naming d root key ops) text t
  /-- A file that is named in one way only holds what the operations that name it leave in order. -/
  inOrder : ∀ key text, d.files.get? key = some text → OneName d root key ops →
    d'.files.get? key = (Request.applyTo ⟨naming d root key ops⟩ text).source
  /-- What is reported as changed is a change of a file that is there; if the file is named in one
  way only, then it is one of those that lead to what the file holds. -/
  reported : ∀ label ∈ result.diffs, ∃ op ∈ ops, op.label = label ∧ ∃ key text,
    d.target? (targetPath root op.file) = some key ∧ d.files.get? key = some text ∧
      (OneName d root key ops →
        label ∈ (Request.applyTo ⟨naming d root key ops⟩ text).diffs)

section Patches

variable {d d' : Folder} {root key text : String} {ops : List Operation} {before : Dict String}

/-- What was read under the names of operations. -/
def IsRead (d : Folder) (root : String) (ops : List Operation) (before : Dict String) : Prop :=
  ∀ file, before.get? file =
    if file ∈ ops.map Operation.file then (d.read (targetPath root file)).toOption else none

/-- A text that was read is that of a file. -/
theorem IsRead.exists_target {file : String} (h : IsRead d root ops before)
    (htext : before.get? file = some text) : (∃ op ∈ ops, op.file = file) ∧
      ∃ key, d.target? (targetPath root file) = some key ∧ d.files.get? key = some text := by
  rw [h] at htext
  split at htext
  · next hmem =>
    obtain ⟨op, hop, hfile⟩ := List.mem_map.1 hmem
    refine ⟨⟨op, hop, hfile⟩, Folder.read_eq_ok_iff_target.1 ?_⟩
    -- The text is there, so the file could be read.
    cases hread : d.read (targetPath root file) with
    | error e =>
      rw [hread] at htext
      cases htext
    | ok text' =>
      rw [hread] at htext
      cases htext
      rfl
  · cases htext

/-- The text of a file was read under each of its names. -/
theorem IsRead.get?_eq (h : IsRead d root ops before) {op : Operation}
    (hop : op ∈ naming d root key ops) (htext : d.files.get? key = some text) :
    before.get? op.file = some text := by
  obtain ⟨hmem, htarget⟩ := mem_naming_iff.1 hop
  have hread := Folder.read_eq_ok_iff_target.2 ⟨key, htarget, htext⟩
  rw [h, if_pos (List.mem_map_of_mem hmem), hread]
  rfl

/-- The texts after a patch, where the texts that were read are patched and written. -/
theorem lastChange_of_lastWritten (hbefore : IsRead d root ops before)
    (htext : d.files.get? key = some text) : ∃ t,
      lastWritten d root key before ((Request.applyToFiles ⟨ops⟩ before).1.entries) (some text) =
        some t ∧ LastChange (naming d root key ops) text t := by
  -- The texts for the names of the file are what the operations under these names leave.
  have hafter (op : Operation) (hop : op ∈ naming d root key ops) :
      (op.file, textAfter (under op.file (naming d root key ops)) text) ∈
        (Request.applyToFiles ⟨ops⟩ before).1.entries := by
    rw [Dict.mem_entries_iff, Patch.get?_applyToFiles, hbefore.get?_eq hop htext,
      under_naming (mem_naming_iff.1 hop).2]
    rfl
  have hunchanged (op : Operation) (hop : op ∈ naming d root key ops)
      (h : ¬ Writes d root key before
        (op.file, textAfter (under op.file (naming d root key ops)) text)) :
      textAfter (under op.file (naming d root key ops)) text = text := by
    refine Decidable.byContradiction fun hne => h ⟨?_, (mem_naming_iff.1 hop).2⟩
    rw [hbefore.get?_eq hop htext]
    exact fun heq => hne (Option.some.inj heq).symm
  rcases lastWritten_cases (Request.applyToFiles ⟨ops⟩ before).1.sorted (some text) with
    ⟨heq, hnone⟩ | ⟨p, hp, hwrites, heq, hlast⟩
  · exact ⟨text, heq, .unchanged fun op hop => hunchanged op hop (hnone _ (hafter op hop))⟩
  · obtain ⟨file, t⟩ := p
    obtain ⟨hdiffers, htarget⟩ := hwrites
    -- The name belongs to an operation, and the text that was read under it is that of the file.
    have hget := Dict.mem_entries_iff.1 hp
    rw [Patch.get?_applyToFiles] at hget
    obtain ⟨text', hread, rfl⟩ := Option.map_eq_some_iff.1 hget
    obtain ⟨⟨op, hop, rfl⟩, key', htarget', htext'⟩ := hbefore.exists_target hread
    obtain rfl : key' = key := Option.some.inj (htarget'.symm.trans htarget)
    obtain rfl : text' = text := Option.some.inj (htext'.symm.trans htext)
    have hnaming : op ∈ naming d root key' ops := mem_naming_iff.2 ⟨hop, htarget⟩
    rw [← under_naming htarget] at heq hdiffers
    refine ⟨_, heq, .changed hnaming ?_ fun op' hop' hlt => hunchanged op' hop' ?_⟩
    · intro hsame
      rw [hsame] at hdiffers
      exact hdiffers hread
    · exact hlast _ (hafter op' hop') hlt

theorem exists_isRead (d : Folder) (root : String) (ops : List Operation) :
    ∃ before, (readTargets root ops .empty).runIn d = (before, d) ∧ IsRead d root ops before := by
  obtain ⟨before, hrun, hget⟩ := runIn_readTargets d root ops .empty
  refine ⟨before, hrun, fun file => ?_⟩
  rw [hget, Dict.get?_empty, Option.none_or]

/-- Every text that is written after a patch belongs to a file that was read. -/
theorem IsRead.hasTargets (h : IsRead d root ops before) :
    HasTargets d root before (Request.applyToFiles ⟨ops⟩ before).1.entries := by
  intro p hp _
  have hget := Dict.mem_entries_iff.1 hp
  rw [Patch.get?_applyToFiles] at hget
  obtain ⟨text, hread, -⟩ := Option.map_eq_some_iff.1 hget
  obtain ⟨-, key, htarget, htext⟩ := h.exists_target hread
  exact ⟨key, htarget, by rw [htext, Option.isSome_some]⟩

/-- What is reported of a patch of the texts that were read. -/
theorem IsRead.exists_of_mem_diffs (h : IsRead d root ops before) {label : String}
    (hlabel : label ∈ (Request.applyToFiles ⟨ops⟩ before).2.diffs) :
    ∃ op ∈ ops, op.label = label ∧ ∃ key text,
      d.target? (targetPath root op.file) = some key ∧ d.files.get? key = some text ∧
        (OneName d root key ops →
          label ∈ (Request.applyTo ⟨naming d root key ops⟩ text).diffs) := by
  obtain ⟨op, hop, hown, text, hread, hmem⟩ := Patch.exists_of_mem_diffs hlabel
  obtain ⟨-, key, htarget, htext⟩ := h.exists_target hread
  refine ⟨op, hop, hown, key, text, htarget, htext, fun hname => ?_⟩
  have hself := under_eq_self (hname op (mem_naming_iff.2 ⟨hop, htarget⟩))
  rw [under_naming htarget] at hself
  rw [← hself]
  exact hmem

/-- A patch that writes all that it has to leaves of each file what the operations under the last of
its names that change it leave, and so what all operations that name it leave in order if they name
it in one way only. -/
theorem patched_of_run {request : String} {report : Report}
    (h : (patch request root false).run.runIn d = (.ok report, d')) (hexit : report.exit ≠ 2) :
    ∃ text r result printed, d.read request = .ok text ∧ Request.read text = .ok r ∧
      report = patchReport result printed ∧ Patched root r.ops result d d' := by
  obtain ⟨text, r, before, d₁, written, hrequest, hr, hreading, hwriting, hreport⟩ :=
    steps_of_run_patch h
  -- Reading leaves the folder as it is, so what is written is written to the folder at the start.
  obtain ⟨before', hrun, hread⟩ := exists_isRead d root r.ops
  cases hrun.symm.trans hreading
  rcases hreport with rfl | ⟨printed, rfl, hreport⟩
  · exact absurd (exit_of_runIn_writeTargets hwriting) hexit
  obtain ⟨hplaces, hget⟩ := get?_of_runIn_writeTargets hread.hasTargets (.refl d) hwriting
  have hlast (key text : String) (htext : d.files.get? key = some text) :
      ∃ t, d'.files.get? key = some t ∧ LastChange (naming d root key r.ops) text t := by
    rw [hget, htext]
    exact lastChange_of_lastWritten hread htext
  refine ⟨text, r, _, printed, hrequest, hr, hreport, hplaces, hlast, ?_, ?_⟩
  · intro key text htext hname
    obtain ⟨t, ht, hchange⟩ := hlast key text htext
    rw [ht, Patch.source_applyTo, hchange.eq_textAfter hname]
  · intro label hlabel
    exact hread.exists_of_mem_diffs hlabel

end Patches

/-- A folder with a file that holds `ab` and with a request that replaces `a` by `x` in it under the
name `f`, and `b` by `y` under another name. -/
def editFolder (other : String) : Folder where
  files := Dict.ofList [("f", "ab"),
    ("r.json", "\x7b\"ops\":[" ++
      "\x7b\"op\":\"textEdit\",\"file\":\"f\",\"find\":\"a\",\"replace\":\"x\"\x7d," ++
      "\x7b\"op\":\"textEdit\",\"file\":\"" ++ other ++
        "\",\"find\":\"b\",\"replace\":\"y\"\x7d]\x7d")]

/-- A run that has a result has it on the folder that it leaves. -/
theorem exists_eq_of_toOption {α : Type} {x : Except Failure α × Folder} {a : α}
    (h : x.1.toOption = some a) : x = (.ok a, x.2) := by
  obtain ⟨r, d⟩ := x
  cases r with
  | error e => cases h
  | ok b =>
    cases h
    rfl

/-- A patch of a file under one name leaves it as the operations do in order. -/
theorem patched_of_run_oneName : ∃ report d',
    (patch "r.json" "." false).run.runIn (editFolder "f") = (.ok report, d') ∧ report.exit ≠ 2 ∧
      ∃ text r result printed, (editFolder "f").read "r.json" = .ok text ∧
        Request.read text = .ok r ∧ report = patchReport result printed ∧
        Patched "." r.ops result (editFolder "f") d' := by
  have hexit : ((patch "r.json" "." false).run.runIn (editFolder "f")).1.toOption.map Report.exit =
    some 0 := by decide +kernel
  obtain ⟨report, hreport, hzero⟩ := Option.map_eq_some_iff.1 hexit
  have hrun := exists_eq_of_toOption hreport
  have hne : report.exit ≠ 2 := by
    rw [hzero]
    decide
  exact ⟨report, _, hrun, hne, patched_of_run hrun hne⟩

/-- The two operations of the request in `editFolder "/f"`. -/
def twoEdits : List Operation :=
  [{ file := "f", change := .text "a" "x" }, { file := "/f", change := .text "b" "y" }]

/-- A patch of a file under two names reports both changes, and the file holds the second one only,
where both in order would leave `xy`. -/
theorem run_patch_twoNames : ∃ report d',
    (patch "r.json" "." false).run.runIn (editFolder "/f") = (.ok report, d') ∧
      report = patchReport ⟨true, ["f:textEdit", "/f:textEdit"], [], none⟩
        { out := "✓ patched ./f\n✓ patched ./f\n" } ∧ report.exit = 0 ∧
      ((editFolder "/f").read "r.json").toOption.map (fun text => (Request.read text).toOption) =
        some (some ⟨twoEdits⟩) ∧
      naming (editFolder "/f") "." "f" twoEdits = twoEdits ∧
      (editFolder "/f").files.get? "f" = some "ab" ∧
      (Request.applyTo ⟨twoEdits⟩ "ab").source = some "xy" ∧
      d'.files.get? "f" = some "xb" := by
  have hreport : ((patch "r.json" "." false).run.runIn (editFolder "/f")).1.toOption =
    some (patchReport ⟨true, ["f:textEdit", "/f:textEdit"], [], none⟩
      { out := "✓ patched ./f\n✓ patched ./f\n" }) := by decide +kernel
  refine ⟨_, _, exists_eq_of_toOption hreport, rfl, rfl, ?_, ?_, ?_, ?_, ?_⟩
  all_goals decide +kernel

end Mockup.CommandLine
