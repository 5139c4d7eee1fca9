import Mockup.Jsx.Name
import Mockup.Problem

/-!
# Patch operations

An operation edits one file of a project. All but the replacement of a text look for an element
with a locator, a text that the element holds. `Operation.problems` lists what is wrong with an
operation before any file is looked at.
-/

namespace Mockup.Patch

/-- What is done to an element. -/
inductive ElementChange where
  /-- Adds classes. -/
  | addClass (classes : String)
  /-- Removes classes. -/
  | removeClass (classes : String)
  /-- Puts classes in the place of one. -/
  | replaceClass (old new : String)
  /-- Gives an attribute a text. -/
  | setAttribute (name value : String)
  /-- Inserts lines after the element. -/
  | insertAfter (code : String)
  deriving DecidableEq, Repr

/-- What is done to a file. -/
inductive Change where
  /-- Changes the element that a locator finds. -/
  | element (locator : String) (change : ElementChange)
  /-- Replaces the first occurrence of a text. -/
  | text (find replacement : String)
  deriving DecidableEq, Repr

/-- An edit of one file. -/
structure Operation where
  /-- The path of the file. -/
  file : String
  /-- What is done to it. -/
  change : Change
  deriving DecidableEq, Repr

namespace Operation

/-- The name of an operation. -/
def name (op : Operation) : String :=
  match op.change with
  | .element _ (.addClass ..) => "addClass"
  | .element _ (.removeClass ..) => "removeClass"
  | .element _ (.replaceClass ..) => "replaceClass"
  | .element _ (.setAttribute ..) => "setAttribute"
  | .element _ (.insertAfter ..) => "insertAfter"
  | .text .. => "textEdit"

/-- The locator of an operation on an element. -/
def locator? (op : Operation) : Option String :=
  match op.change with
  | .element locator _ => some locator
  | .text .. => none

/-- The file and the name of an operation, which open every line about it. -/
def label (op : Operation) : String :=
  op.file ++ ":" ++ op.name

end Operation

/-! ### Problems -/

/-- Whether a path stays inside the project: no part of it leads upward. -/
def isProjectPath (path : String) : Bool :=
  !(Text.pieces (fun c => c == '/' || c == '\\') path.toList).contains ['.', '.']

/-- The problem with a field that must not be blank. -/
def blankField (place : Place) (name value : String) : List Problem :=
  Problem.when (Text.isAllBlank value) (place.field name) .empty

/-- The problems of a change of an element, apart from those of the locator. -/
def ElementChange.problems (place : Place) : ElementChange → List Problem
  | .addClass classes | .removeClass classes => blankField place "className" classes
  | .replaceClass old new =>
    blankField place "from" old ++ blankField place "to" new ++
      Problem.when (1 < (Text.words old).length) (place.field "from") .notOneToken
  | .setAttribute name _ =>
    Problem.when (!Jsx.isAttributeName name) (place.field "name") (.badAttributeName name)
  | .insertAfter code => blankField place "code" code

/-- The name of the field for the locator. -/
def ElementChange.locatorField : ElementChange → String
  | .insertAfter .. => "targetJsx"
  | _ => "jsx"

/-- The problems of a change. -/
def Change.problems (place : Place) : Change → List Problem
  | .element locator change =>
    blankField place change.locatorField locator ++ change.problems place
  | .text find _ => blankField place "find" find

/-- The problems of an operation at a place. -/
def Operation.problems (place : Place) (op : Operation) : List Problem :=
  blankField place "file" op.file ++ op.change.problems place ++
    Problem.when (!Text.isAllBlank op.file && !isProjectPath op.file) (place.field "file")
      (.outsideRoot op.file)

/-! ### Interchange -/

/-- The fields of a change of an element as an object names them, apart from the locator. -/
def ElementChange.fields : ElementChange → List (String × Json)
  | .addClass classes | .removeClass classes => [("className", .string classes)]
  | .replaceClass old new => [("from", .string old), ("to", .string new)]
  | .setAttribute name value => [("name", .string name), ("value", .string value)]
  | .insertAfter code => [("code", .string code)]

/-- The fields of a change as an object names them. -/
def Change.fields : Change → List (String × Json)
  | .element locator change => (change.locatorField, .string locator) :: change.fields
  | .text find replacement => [("find", .string find), ("replace", .string replacement)]

/-- An operation as an object. -/
def Operation.encode (op : Operation) : Json :=
  .object ([("op", .string op.name), ("file", .string op.file)] ++ op.change.fields)

/-- The kinds of operations by their tags, each with its fields. -/
def Operation.variants {whole : Json} : List (String × Json.Variant whole Operation) :=
  let text (key : String) : Json.Members whole String := .required key Json.asString
  [("addClass", ⟨"AddClass",
      (fun file locator classes => ⟨file, .element locator (.addClass classes)⟩) <$>
        text "file" <*> text "jsx" <*> text "className"⟩),
    ("removeClass", ⟨"RemoveClass",
      (fun file locator classes => ⟨file, .element locator (.removeClass classes)⟩) <$>
        text "file" <*> text "jsx" <*> text "className"⟩),
    ("replaceClass", ⟨"ReplaceClass",
      (fun file locator old new => ⟨file, .element locator (.replaceClass old new)⟩) <$>
        text "file" <*> text "jsx" <*> text "from" <*> text "to"⟩),
    ("setAttribute", ⟨"SetAttribute",
      (fun file locator name value => ⟨file, .element locator (.setAttribute name value)⟩) <$>
        text "file" <*> text "jsx" <*> text "name" <*> text "value"⟩),
    ("insertAfter", ⟨"InsertAfter",
      (fun file locator code => ⟨file, .element locator (.insertAfter code)⟩) <$>
        text "file" <*> text "targetJsx" <*> text "code"⟩),
    ("textEdit", ⟨"TextEdit",
      (fun file find replacement => ⟨file, .text find replacement⟩) <$>
        text "file" <*> text "find" <*> text "replace"⟩)]

/-- An operation from an object or a sequence. -/
def Operation.decode (j : Json) : Decoded Operation :=
  Json.asTagged .direct "PatchOp" "op" j variants

end Mockup.Patch
