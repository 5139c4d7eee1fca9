import Mockup.Text.Split

/-!
# Paths

Paths of files as texts with slashes between their parts. An empty part, and a part that is a single
dot, names the directory that is reached already.
-/

namespace Mockup.Disk

/-- The parts of a path, those included that lead nowhere. -/
def partsOf (path : String) : List String :=
  (Text.pieces (· == '/') path.toList).map String.ofList

/-- Whether a part leads nowhere. -/
def isIdle (part : String) : Bool :=
  part == "" || part == "."

/-- Whether a path starts at the root of all files. -/
def isAbsolute (path : String) : Bool :=
  path.toList.head? == some '/'

/-- The path to a place below another one. -/
def join (base path : String) : String :=
  if base.isEmpty || isAbsolute path then path
  else if base.toList.getLast? == some '/' then base ++ path
  else base ++ "/" ++ path

/-- The path without the slashes in front. -/
def relative (path : String) : String :=
  String.ofList (path.toList.dropWhile (· == '/'))

/-- The parts without those at the end that lead nowhere; a first part stays. -/
def dropIdle : List String → List String
  | [] => []
  | p :: ps => p :: (ps.reverse.dropWhile isIdle).reverse

/-- The path to the directory that a path leads through last. -/
def parent (path : String) : String :=
  match dropIdle (dropIdle (partsOf path)).dropLast with
  | [""] => if isAbsolute path then "/" else ""
  | parts => "/".intercalate parts

/-- The name of the file that a path leads to. -/
def fileName? (path : String) : Option String :=
  ((partsOf path).filter fun p => !isIdle p).getLast?.filter (· != "..")

/-- A name without its last extension; a name that has nothing before it stays. -/
def stem (name : String) : String :=
  match (name.toList.reverse.dropWhile (· != '.')).drop 1 with
  | [] => name
  | rest => String.ofList rest.reverse

end Mockup.Disk
