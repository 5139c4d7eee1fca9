import Mockup.Text.Split

/-!
# Identifiers

Names that are made from free text. The words of a text are its runs of ASCII letters and digits.
Joined with capitals they give the two common forms of an identifier; `freshName` adds a number to
a name that is taken.
-/

namespace Mockup.Text

/-- The runs of ASCII letters and digits in a text. -/
def nameWords (cs : List Char) : List (List Char) :=
  (pieces (fun c => !c.isAlphanum) cs).filter fun w => !w.isEmpty

/-- A word with its first letter as a capital. -/
def capitalized : List Char → List Char
  | [] => []
  | c :: cs => c.toUpper :: cs

/-- The words of a text in lower case, all but the first one capitalized. -/
def camelCase (cs : List Char) : List Char :=
  match (nameWords cs).map (·.map Char.toLower) with
  | [] => []
  | w :: ws => w ++ (ws.map capitalized).flatten

/-- The words of a text, each capitalized and otherwise as written. -/
def pascalCase (cs : List Char) : List Char :=
  ((nameWords cs).map capitalized).flatten

/-- Whether a text is an identifier that begins with a capital: ASCII letters and digits only. -/
def isPascalCase (s : String) : Bool :=
  match s.toList with
  | [] => false
  | c :: cs => c.isUpper && cs.all Char.isAlphanum

/-- The names to try in turn: the name itself, and the name with a number from two on. -/
def candidates (base : String) (count : Nat) : List String :=
  base :: (List.range count).map fun n => base ++ toString (n + 2)

/-- The first candidate that is not taken. One more candidate than there are taken names is enough,
because all of them differ. -/
def freshName (taken : List String) (base : String) : String :=
  ((candidates base taken.length).find? fun c => !taken.contains c).getD base

end Mockup.Text
