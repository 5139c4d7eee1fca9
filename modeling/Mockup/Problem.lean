import Mockup.Json.Decode

/-!
# Problems

A check of a tree, a plan, a palette or a request lists all problems that it finds. A problem is
at a place, which is a path of field names and positions from the root of what was checked.
-/

namespace Mockup

/-- One step of a path: to a field, or to one item of a field that is a list. -/
structure Step where
  /-- The name of the field. -/
  name : String
  /-- The position of the item, counted from zero. -/
  index : Option Nat := none
  deriving DecidableEq, Repr

/-- A path from the root of what was checked. -/
abbrev Place := List Step

/-- The written form of a step. -/
def Step.text (s : Step) : String :=
  match s.index with
  | none => s.name
  | some i => s.name ++ "[" ++ toString i ++ "]"

namespace Place

/-- The written form of a path. -/
def text (p : Place) : String :=
  ".".intercalate (p.map Step.text)

/-- The path to a field below a place. -/
def field (p : Place) (name : String) : Place :=
  p ++ [⟨name, none⟩]

/-- The path to an item of a list below a place. -/
def item (p : Place) (name : String) (index : Nat) : Place :=
  p ++ [⟨name, some index⟩]

end Place

/-- What is wrong at a place. -/
inductive Complaint where
  /-- A text is blank, or a list has no items. -/
  | empty
  /-- There is no patch operation. -/
  | noOperations
  /-- A value is absent. -/
  | missing
  /-- A value is no list. -/
  | notAList
  /-- Nodes nest too deep. -/
  | tooDeep (max : Nat)
  /-- A number is below zero or not finite. -/
  | notNonNegative
  /-- There are no columns. -/
  | noColumns
  /-- A name was used before. -/
  | duplicate (name : String)
  /-- A choice has no options. -/
  | noOptions
  /-- A text has several class tokens. -/
  | notOneToken
  /-- A name is no attribute name. -/
  | badAttributeName (name : String)
  /-- A path leaves the root of the project. -/
  | outsideRoot (path : String)
  /-- A value cannot be decoded. -/
  | undecodable (e : DecodeError)
  /-- An entry has a blank key. -/
  | emptyKey
  /-- The entry with this key has a blank tag. -/
  | emptyTag (key : String)
  /-- An entry has the key of an earlier one. -/
  | duplicateKey (key : String)
  deriving Repr

/-- The text of a complaint, which follows that of the place. -/
def Complaint.text : Complaint → String
  | .empty => ": must not be empty"
  | .noOperations => ": must contain at least one operation"
  | .missing => ": missing"
  | .notAList => ": must be an array"
  | .tooDeep max => ": nesting deeper than " ++ toString max
  | .notNonNegative => ": must be a non-negative number"
  | .noColumns => ": must be at least 1"
  | .duplicate name => ": duplicate '" ++ name ++ "'"
  | .noOptions => ": Select needs at least one option"
  | .notOneToken => ": must be a single class token"
  | .badAttributeName name => ": '" ++ name ++ "' is not a valid JSX attribute name"
  | .outsideRoot path => ": '" ++ path ++ "' must stay inside the project root"
  | .undecodable e => ": " ++ e.message
  | .emptyKey => ": key must not be empty"
  | .emptyTag key => " '" ++ key ++ "': tag must not be empty"
  | .duplicateKey key => ": duplicate key '" ++ key ++ "'"

/-- A complaint at a place. -/
structure Problem where
  /-- Where. -/
  place : Place
  /-- What. -/
  complaint : Complaint
  deriving Repr

/-- The text of a problem. -/
def Problem.message (p : Problem) : String :=
  p.place.text ++ p.complaint.text

/-- Several problems as one text. -/
def Problem.summary (problems : List Problem) : String :=
  "Validation failed: " ++ "; ".intercalate (problems.map message)

/-- Nothing, if there are no problems, and otherwise all of them. -/
def Problem.check (problems : List Problem) : Except (List Problem) Unit :=
  if problems.isEmpty then .ok () else .error problems

/-- A check passes exactly if there are no problems. -/
theorem Problem.check_eq_ok_iff {problems : List Problem} :
    check problems = .ok () ↔ problems = [] := by
  unfold check
  split <;> simp_all

/-- A complaint at a place, if a condition holds. -/
def Problem.when (c : Bool) (place : Place) (complaint : Complaint) : List Problem :=
  if c then [⟨place, complaint⟩] else []

end Mockup
