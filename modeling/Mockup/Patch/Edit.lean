import Mockup.Jsx.Escape
import Mockup.Jsx.Scan
import Mockup.Patch.Operation
import Mockup.Tailwind.ClassList

/-!
# Edits of a file

`Change.edit?` finds the place in a text that a change is about and what is put there. It gives no
edit if the text already is as the change wants it.
-/

namespace Mockup.Patch

open Jsx (Element)
open Tailwind (ClassList)

/-- A text that is put in the place of another one. -/
structure Edit where
  /-- The start of the place as a byte offset. -/
  start : Nat
  /-- The end of the place as a byte offset. -/
  stop : Nat
  /-- What is put there. -/
  text : List Char
  deriving DecidableEq, Repr

/-- An edit that only adds text. -/
def Edit.insertion (place : Nat) (text : List Char) : Edit := ⟨place, place, text⟩

/-- A text with an edit made. -/
def Edit.applyTo (source : List Char) (e : Edit) : List Char :=
  Text.takeBytes e.start source ++ e.text ++ Text.dropBytes e.stop source

/-- Why an operation fails. -/
inductive Obstacle where
  /-- The file of the operation is not there. -/
  | unknownFile
  /-- The text to replace is not there. -/
  | textNotFound (find : String)
  /-- The elements of the file cannot be found. -/
  | unreadable (e : Jsx.ScanError)
  /-- No element holds the locator. -/
  | elementNotFound (locator : String)
  /-- The classes of the element are the value of an expression. -/
  | dynamicClasses (expression : String)
  /-- A class would not stay a class in the file. -/
  | oddClass (token : String)
  deriving Repr

/-- The text of an obstacle, which follows the label of the operation. -/
def Obstacle.message : Obstacle → String
  | .unknownFile => "file not found"
  | .textNotFound find => "find text not found: " ++ find
  | .unreadable e => "could not parse source: " ++ e.message
  | .elementNotFound locator => "target not found: " ++ locator
  | .dynamicClasses expression => "dynamic className cannot be edited: " ++ expression
  | .oddClass token => "invalid class token: " ++ token

/-! ### Classes -/

/-- Whether a character cannot stand in a class. -/
def isOddInClass (c : Char) : Bool :=
  c == '"' || c == '\'' || c == '\x7b' || c == '\x7d' || c == '<' || c == '>' || c == '\x60'

/-- Fails at the first class with a character that cannot stand in one. -/
def checkClasses (classes : String) : Except Obstacle Unit :=
  match (Text.words classes).find? fun w => w.toList.any isOddInClass with
  | some token => .error (.oddClass token)
  | none => .ok ()

/-- The name of the attribute for classes. -/
def classAttribute : String := "className"

/-- The attribute for a list of classes. -/
def classText (l : ClassList) : List Char :=
  (classAttribute ++ "=\"" ++ l.text ++ "\"").toList

/-- The classes that the value of an attribute writes. -/
def classesOf : Option Jsx.Value → Except Obstacle ClassList
  | none => .ok .empty
  | some (.quoted s) => .ok (.parse (String.ofList s))
  | some (.braced s) =>
    match Jsx.loneText? s with
    | some t => .ok (.parse (String.ofList t))
    | none => .error (.dynamicClasses (String.ofList ('\x7b' :: s ++ ['\x7d'])))

/-- Changes the classes of an element. An element without any gets the attribute if `create`
holds. -/
def editClasses (e : Element) (create : Bool) (change : ClassList → ClassList) :
    Except Obstacle (Option Edit) :=
  match e.attribute? classAttribute with
  | some a => do
    let old ← classesOf a.value
    let new := change old
    return if old.changed new then some ⟨a.start, a.stop, classText new⟩ else none
  | none =>
    .ok (if create then some (.insertion e.insertPoint (' ' :: classText (change .empty)))
      else none)

/-! ### Attributes -/

/-- The attribute with a name and a text. -/
def attributeText (name value : String) : List Char :=
  name.toList ++ '=' :: Jsx.literal value.toList

/-- Gives an attribute of an element a text. -/
def editAttribute (source : List Char) (e : Element) (name value : String) : Option Edit :=
  let text := attributeText name value
  match e.attribute? name with
  | some a =>
    if Text.slice a.start a.stop source = text then none else some ⟨a.start, a.stop, text⟩
  | none => some (.insertion e.insertPoint (' ' :: text))

/-! ### Operations -/

/-- The edit that a change of an element asks for. -/
def ElementChange.edit? (source : List Char) (e : Element) :
    ElementChange → Except Obstacle (Option Edit)
  | .addClass classes => do
    checkClasses classes
    editClasses e true fun l => l.add classes
  | .removeClass classes => editClasses e false fun l => l.remove classes
  | .replaceClass old new => do
    checkClasses new
    editClasses e true fun l => l.replace old new
  | .setAttribute name value => .ok (editAttribute source e name value)
  | .insertAfter code => .ok (some (.insertion e.stop ('\n' :: code.toList)))

/-- The replacement of the first occurrence of a text. -/
def editText (source : List Char) (find replacement : String) : Except Obstacle (Option Edit) :=
  match Text.splitAt? find.toList source with
  | none => .error (.textNotFound find)
  | some (before, _) =>
    .ok (if find = replacement then none
      else
        let start := Text.byteLength before
        some ⟨start, start + Text.byteLength find.toList, replacement.toList⟩)

/-- The edit of the element that a locator finds. -/
def editElement (source : List Char) (locator : String) (change : ElementChange) :
    Except Obstacle (Option Edit) :=
  match Jsx.scan source with
  | .error e => .error (.unreadable e)
  | .ok elements =>
    match Element.find? source locator.toList elements with
    | none => .error (.elementNotFound locator)
    | some e => change.edit? source e

/-- The edit that a change of a file asks for. -/
def Change.edit? (source : List Char) : Change → Except Obstacle (Option Edit)
  | .element locator change => editElement source locator change
  | .text find replacement => editText source find replacement

/-- The text after an operation, if the operation changes it. -/
def Operation.applyTo (source : String) (op : Operation) : Except Obstacle (Option String) :=
  (op.change.edit? source.toList).map fun edit =>
    edit.map fun e => String.ofList (e.applyTo source.toList)

end Mockup.Patch
