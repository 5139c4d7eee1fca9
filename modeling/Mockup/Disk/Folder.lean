import Mockup.Dict
import Mockup.Disk.Path
import Mockup.Disk.Program

/-!
# Folders in memory

A folder holds files and further folders. `Program.runIn` runs a program on it: every path starts at
the folder, and nothing outside it is there.
-/

namespace Mockup.Disk

/-- Files and folders below one folder. The names on the way to each are joined with slashes. -/
structure Folder where
  /-- The texts of the files. -/
  files : Dict String
  /-- The folders that may have no files in them. -/
  folders : List (List String) := []

/-- A place below a folder: the names on the way to it. -/
abbrev Spot := List String

/-- The path to a place. -/
def Spot.path (s : Spot) : String :=
  "/".intercalate s

namespace Folder

/-- The text of the file at a place. -/
def file? (d : Folder) (s : Spot) : Option String :=
  d.files.get? (Spot.path s)

/-- Whether a folder is at a place. -/
def hasFolder (d : Folder) (s : Spot) : Bool :=
  s.isEmpty || d.folders.any (fun f => s.isPrefixOf f) ||
    d.files.entries.any fun e =>
      let parts := partsOf e.1
      s.length < parts.length && s.isPrefixOf parts

/-- The place that a part of a path leads to from a place. -/
def enter (d : Folder) (s : Spot) (part : String) : Except Fault Spot :=
  if !d.hasFolder s then .error (if (d.file? s).isSome then .notFolder else .notFound)
  else if isIdle part then .ok s
  else if part == ".." then if s.isEmpty then .error .notFound else .ok s.dropLast
  else .ok (s ++ [part])

/-- The place that a path leads to, where nothing need be. -/
def follow (d : Folder) (path : String) : Except Fault Spot :=
  if isAbsolute path || path.isEmpty then .error .notFound
  else (partsOf path).foldlM d.enter []

/-- The text of the file that a path leads to. -/
def read (d : Folder) (path : String) : Except Fault String := do
  let s ← d.follow path
  match d.file? s with
  | some text => return text
  | none => throw (if d.hasFolder s then .isFolder else .notFound)

/-- The folder after the file that a path leads to was given a text. -/
def write (d : Folder) (path text : String) : Except Fault Folder := do
  let s ← d.follow path
  if d.hasFolder s then throw .isFolder
  return { d with files := d.files.insert (Spot.path s) text }

/-- The place that a part of a path leads to after the folder there was made. -/
def enterNew (state : Folder × Spot) (part : String) : Except Fault (Folder × Spot) :=
  let (d, s) := state
  if (d.file? s).isSome then .error .notFolder
  else if isIdle part then .ok (d, s)
  else if part == ".." then if s.isEmpty then .error .notFound else .ok (d, s.dropLast)
  else
    let t := s ++ [part]
    .ok (if d.hasFolder t || (d.file? t).isSome then d
      else { d with folders := d.folders ++ [t] }, t)

/-- The folder after the directory that a path leads to was made. -/
def makeFolder (d : Folder) (path : String) : Except Fault Folder := do
  if isAbsolute path then throw .notFound
  let (d, s) ← (partsOf path).foldlM enterNew (d, [])
  if (d.file? s).isSome then throw .taken
  return d

end Folder

namespace Program

variable {α : Type}

/-- The outcome of a request that changes a folder, and the folder after it. -/
def changed (d : Folder) : Except Fault Folder → Except Fault Unit × Folder
  | .ok d => (.ok (), d)
  | .error e => (.error e, d)

/-- Runs a program on a folder. -/
def runIn (d : Folder) : Program α → α × Folder
  | .done a => (a, d)
  | .read path next => (next (d.read path)).runIn d
  | .write path text next =>
    let (r, after) := changed d (d.write path text)
    (next r).runIn after
  | .makeFolder path next =>
    let (r, after) := changed d (d.makeFolder path)
    (next r).runIn after
  | .isFile path next => (next (d.read path).toBool).runIn d

end Program

end Mockup.Disk
