/-!
# Programs that use files

A program is a tree of requests to the place where files are kept. Each request names a path, and
the program goes on with the answer. What a program asks for can so be told without running it,
and it can be run on real files as well as on a folder in memory.
-/

namespace Mockup.Disk

/-- Why a request for a file fails. -/
inductive Fault where
  /-- There is no such file. -/
  | notFound
  /-- A directory is where a file is due. -/
  | isFolder
  /-- A file is where a directory is due. -/
  | notFolder
  /-- A file is in the place of a new directory. -/
  | taken
  /-- Another reason. -/
  | other (text : String)
  deriving DecidableEq, Repr

/-- The text of a fault. -/
def Fault.message : Fault → String
  | .notFound => "No such file or directory (os error 2)"
  | .isFolder => "Is a directory (os error 21)"
  | .notFolder => "Not a directory (os error 20)"
  | .taken => "File exists (os error 17)"
  | .other text => text

/-- A program that uses files. -/
inductive Program (α : Type) where
  /-- The program is done. -/
  | done (a : α)
  /-- Asks for the text of a file. -/
  | read (path : String) (next : Except Fault String → Program α)
  /-- Gives a file a text. -/
  | write (path text : String) (next : Except Fault Unit → Program α)
  /-- Makes a directory and those around it. -/
  | makeFolder (path : String) (next : Except Fault Unit → Program α)
  /-- Asks whether a path leads to a file. -/
  | isFile (path : String) (next : Bool → Program α)

namespace Program

variable {α β : Type}

/-- Goes on with a program after another one. -/
def bind : Program α → (α → Program β) → Program β
  | .done a, f => f a
  | .read path next, f => .read path fun r => (next r).bind f
  | .write path text next, f => .write path text fun r => (next r).bind f
  | .makeFolder path next, f => .makeFolder path fun r => (next r).bind f
  | .isFile path next, f => .isFile path fun r => (next r).bind f

instance : Monad Program where
  pure := .done
  bind := bind

/-- What follows a program that is done starts at once. -/
@[simp]
theorem pure_bind (a : α) (f : α → Program β) : (Program.done a).bind f = f a := rfl

/-- A program that goes on with nothing stays the same. -/
@[simp]
theorem bind_done (p : Program α) : p.bind .done = p := by
  induction p with
  | done a => rfl
  | read path next ih => simp [bind, ih]
  | write path text next ih => simp [bind, ih]
  | makeFolder path next ih => simp [bind, ih]
  | isFile path next ih => simp [bind, ih]

/-- The text of a file. -/
def readFile (path : String) : Program (Except Fault String) :=
  .read path .done

/-- Gives a file a text. -/
def writeFile (path text : String) : Program (Except Fault Unit) :=
  .write path text .done

/-- Makes a directory and those around it. -/
def createFolder (path : String) : Program (Except Fault Unit) :=
  .makeFolder path .done

/-- Whether a path leads to a file. -/
def hasFile (path : String) : Program Bool :=
  .isFile path .done

end Program

end Mockup.Disk
