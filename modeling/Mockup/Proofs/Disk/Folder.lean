import Mockup.Disk.Folder
import Mockup.Proofs.Except

/-!
# Writing to files that are there

A file that is there already can be given another text without anything else changing: the same
files and folders are at the same places, so every path leads to where it led before.

* `SamePlaces d d'` — the same files and folders are in both.

## Main results

* `Program.runIn_bind`: programs in sequence run in sequence.
* `SamePlaces.follow_eq`: a path leads to the same place in both folders.
* `get?_of_write`: what a write to a file that is there changes.
-/

namespace Mockup

namespace Disk

/-! ### Programs -/

/-- What follows a program runs on the folder that it leaves. -/
theorem Program.runIn_bind {α β : Type} (p : Program α) (f : α → Program β) (d : Folder) :
    (p >>= f).runIn d = (f (p.runIn d).1).runIn (p.runIn d).2 := by
  induction p generalizing d with
  | done a => rfl
  | read path next ih => exact ih _ d
  | write path text next ih => exact ih _ _
  | makeFolder path next ih => exact ih _ _
  | isFile path next ih => exact ih _ d

namespace Folder

/-! ### Places -/

/-- The same files, with whatever texts, and the same folders are in both. -/
structure SamePlaces (d d' : Folder) : Prop where
  files : d'.files.entries.map Prod.fst = d.files.entries.map Prod.fst
  folders : d'.folders = d.folders

section SamePlaces

variable {d d' d'' : Folder}

theorem SamePlaces.refl (d : Folder) : SamePlaces d d :=
  ⟨rfl, rfl⟩

theorem SamePlaces.trans (h : SamePlaces d d') (h' : SamePlaces d' d'') : SamePlaces d d'' :=
  ⟨h'.files.trans h.files, h'.folders.trans h.folders⟩

theorem SamePlaces.isSome_get?_eq (h : SamePlaces d d') (key : String) :
    (d'.files.get? key).isSome = (d.files.get? key).isSome := by
  rw [Bool.eq_iff_iff, Dict.isSome_get?_iff, Dict.isSome_get?_iff, h.files]

theorem SamePlaces.hasFolder_eq (h : SamePlaces d d') (s : Spot) :
    d'.hasFolder s = d.hasFolder s := by
  -- Only the names of the files count, not their texts.
  have hany (e : Folder) : (e.files.entries.any fun x =>
      s.length < (partsOf x.1).length && s.isPrefixOf (partsOf x.1)) =
      (e.files.entries.map Prod.fst).any fun key =>
        s.length < (partsOf key).length && s.isPrefixOf (partsOf key) := by
    rw [List.any_map]
    rfl
  unfold hasFolder
  rw [h.folders, hany d, hany d', h.files]

theorem SamePlaces.enter_eq (h : SamePlaces d d') (s : Spot) (part : String) :
    d'.enter s part = d.enter s part := by
  rw [enter, enter, h.hasFolder_eq, file?, file?, h.isSome_get?_eq]

/-- A path leads to the same place where the same files and folders are. -/
theorem SamePlaces.follow_eq (h : SamePlaces d d') (path : String) :
    d'.follow path = d.follow path := by
  have henter : d'.enter = d.enter := by
    funext s part
    exact h.enter_eq s part
  rw [follow, follow, henter]

end SamePlaces

/-! ### Files that paths lead to -/

/-- The key of the file that a path leads to, where one may be. -/
def target? (d : Folder) (path : String) : Option String :=
  (d.follow path).toOption.map Spot.path

section Target

variable {d d' : Folder} {path : String}

theorem SamePlaces.target?_eq (h : SamePlaces d d') (path : String) :
    d'.target? path = d.target? path := by
  rw [target?, target?, h.follow_eq]

/-- A path can be read exactly if it leads to a file. -/
theorem read_eq_ok_iff_target {text : String} : d.read path = .ok text ↔
    ∃ key, d.target? path = some key ∧ d.files.get? key = some text := by
  unfold read target?
  -- Both sides ask for the place that the path leads to, so a path that leads nowhere settles both.
  cases d.follow path with
  | error e =>
    constructor
    · intro h
      cases h
    · rintro ⟨key, h, -⟩
      cases h
  | ok s =>
    rw [ok_bind]
    constructor
    · intro h
      refine ⟨s.path, rfl, ?_⟩
      split at h
      · next hfile =>
        cases h
        exact hfile
      · cases h
    · rintro ⟨key, hkey, hfile⟩
      cases hkey
      rw [show d.file? s = some text from hfile]
      rfl

/-- A write gives the file that the path leads to the text. If the file is there, then the files and
folders are at the same places as before, and no other file changes. -/
theorem get?_of_write {key text : String} (htarget : d.target? path = some key)
    (hfile : (d.files.get? key).isSome = true) (h : d.write path text = .ok d') :
    SamePlaces d d' ∧
      ∀ k, d'.files.get? k = if k = key then some text else d.files.get? k := by
  unfold write at h
  unfold target? at htarget
  cases hfollow : d.follow path with
  | error e =>
    rw [hfollow] at htarget
    cases htarget
  | ok s =>
    rw [hfollow] at htarget h
    cases htarget
    rw [ok_bind] at h
    -- A file that is there is no folder, so the write replaces its text.
    split at h
    · cases h
    · cases h
      exact ⟨⟨Dict.keys_insert hfile text, rfl⟩, fun k => Dict.get?_insert _ _ _ _⟩

end Target

end Folder

end Disk

end Mockup
