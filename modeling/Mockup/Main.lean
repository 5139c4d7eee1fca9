import Mockup.CommandLine.Commands

/-!
# The command line

Runs the program of the command line on real files.
-/

namespace Mockup

open Disk

/-- The fault that an error of the operating system stands for. -/
def faultOf : IO.Error → Fault
  | .noFileOrDirectory .. => .notFound
  | .alreadyExists .. => .taken
  | .inappropriateType _ code _ =>
    -- Some systems report the negated number of the error.
    if code = 20 ∨ code = -20 then .notFolder else .isFolder
  | e => .other (toString e)

/-- The outcome of an action on files. -/
def attempt {α : Type} (action : IO α) : IO (Except Fault α) := do
  try return .ok (← action) catch e => return .error (faultOf e)

/-- Whether a path leads to a file that can be read. -/
def isFile (path : String) : IO Bool := do
  return (← attempt (IO.FS.readBinFile path)).toBool

/-- Makes a directory and those around it. -/
def makeFolder (path : String) : IO (Except Fault Unit) := do
  match ← attempt (IO.FS.createDirAll path) with
  | .error .taken =>
    -- The file may be in the place of the directory itself or of one around it.
    return .error (if ← isFile path then .taken else .notFolder)
  | r => return r

/-- Runs a program on real files. -/
def perform {α : Type} : Program α → IO α
  | .done a => return a
  | .read path next => do perform (next (← attempt (IO.FS.readFile path)))
  | .write path text next => do perform (next (← attempt (IO.FS.writeFile path text)))
  | .makeFolder path next => do perform (next (← makeFolder path))
  | .isFile path next => do perform (next (← isFile path))

end Mockup

/-- Runs the command line and reports what came of it. -/
def main (args : List String) : IO UInt32 := do
  let report ← Mockup.perform (Mockup.CommandLine.run args)
  (← IO.getStdout).putStr report.out
  (← IO.getStderr).putStr report.err
  return report.exit.toUInt32
