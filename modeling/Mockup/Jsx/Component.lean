import Mockup.Jsx.View
import Mockup.Ui.Tree
import Mockup.Warning

/-!
# Component files

The text of a file with one component. The view of the component stands in a wrapper, which is a
form if there is something to send, and then the file also holds the function that sends it.
-/

namespace Mockup.Jsx

open Ui (SubmitAction)

/-- The element around the view of a component. -/
inductive Wrapper where
  | plain
  /-- A form, with what happens when it is sent. -/
  | form (action : Option SubmitAction)
  deriving DecidableEq, Repr

/-- What a component file is made from. -/
structure Component where
  /-- The name of the component. -/
  name : String
  /-- The import lines, which may end in semicolons. -/
  imports : List String
  /-- The wrapper. -/
  wrapper : Wrapper
  /-- The view. -/
  body : View

/-- A component file. -/
structure ComponentFile where
  /-- The name of the component. -/
  name : String
  /-- The path of the file. -/
  path : String
  /-- The text of the file. -/
  code : String
  /-- The remarks on it. -/
  warnings : List Warning

/-! ### Parts of the file -/

/-- A text in braces. -/
def braced (s : String) : String :=
  "\x7b" ++ s ++ "\x7d"

/-- Where an action sends the data and what it sends, as expressions. -/
def destination : SubmitAction → String × String
  | .httpPost url => (Json.quote url, "data")
  | .openApi specUrl operationId =>
    (Json.quote "/api/openapi",
      braced (" specUrl: " ++ Json.quote specUrl ++ ", operationId: " ++ Json.quote operationId ++
        ", data "))
  | .supabaseInsert table =>
    (Json.quote "/api/supabase", braced (" table: " ++ Json.quote table ++ ", data "))
  | .graphql endpoint document =>
    (Json.quote "/api/graphql",
      braced (" endpoint: " ++ Json.quote endpoint ++ ", query: " ++ Json.quote document ++
        ", variables: data "))

/-- The statement that sends the data. -/
def sendStatement (action : SubmitAction) : String :=
  let (address, body) := destination action
  let headers := braced " \"Content-Type\": \"application/json\" "
  let request := braced
    (" method: \"POST\", headers: " ++ headers ++ ", body: JSON.stringify(" ++ body ++ ") ")
  "await fetch(" ++ address ++ ", " ++ request ++ ");"

/-- An import line, with one semicolon at its end. -/
def importLine (line : String) : String :=
  String.ofList (Text.dropTrailing (· == ';') line.toList) ++ ";\n"

/-- The import lines of a file, with an empty line after them. -/
def importBlock (imports : List String) (wrapper : Wrapper) : String :=
  let lines := String.join (imports.map importLine)
  match wrapper with
  | .plain => if imports.isEmpty then "" else lines ++ "\n"
  | .form _ => lines ++ "import type \x7b FormEvent \x7d from \"react\";\n\n"

/-- The type of the props of a component. -/
def propsType (name : String) : String :=
  "export type " ++ name ++ "Props = \x7b\n" ++
    "  onSubmit?: (data: Record<string, FormDataEntryValue>) => void;\n" ++
    "  className?: string;\n" ++
    "\x7d;\n\n"

/-- The function that is called when a form is sent. -/
def submitFunction (action : Option SubmitAction) : String :=
  "  " ++ (if action.isSome then "async " else "") ++
    "function handleSubmit(event: FormEvent<HTMLFormElement>) \x7b\n" ++
    "    event.preventDefault();\n" ++
    "    const data = Object.fromEntries(new FormData(event.currentTarget));\n" ++
    ((action.map fun a => "    " ++ sendStatement a ++ "\n").getD "") ++
    "    onSubmit?.(data);\n" ++
    "  \x7d\n\n"

/-- The first lines of the component function, up to what it returns. -/
def functionHead (name : String) : Wrapper → String
  | .plain =>
    "export default function " ++ name ++ "(\x7b className \x7d: " ++ name ++ "Props) \x7b\n"
  | .form action =>
    "export default function " ++ name ++ "(\x7b onSubmit, className \x7d: " ++ name ++
      "Props) \x7b\n" ++ submitFunction action

/-- The opening tag of a wrapper. -/
def Wrapper.openTag : Wrapper → String
  | .plain => "<div className=\x7bclassName\x7d>"
  | .form _ => "<form className=\x7bclassName\x7d onSubmit=\x7bhandleSubmit\x7d>"

/-- The closing tag of a wrapper. -/
def Wrapper.closeTag : Wrapper → String
  | .plain => "</div>"
  | .form _ => "</form>"

/-- The depth of a view in its file. -/
def bodyDepth : Nat := 3

/-- The text of the file. -/
def Component.source (c : Component) : String :=
  importBlock c.imports c.wrapper ++ propsType c.name ++ functionHead c.name c.wrapper ++
    "  return (\n    " ++ c.wrapper.openTag ++ "\n" ++
    String.ofList (c.body.chars bodyDepth) ++
    "    " ++ c.wrapper.closeTag ++ "\n  );\n\x7d\n"

/-- The path of the file of a component in a directory. -/
def filePath (directory name : String) : String :=
  match Text.dropTrailing (· == '/') directory.toList with
  | [] => name ++ ".tsx"
  | dir => String.ofList dir ++ "/" ++ name ++ ".tsx"

/-- The remark on a name that had to be changed. -/
def nameWarnings (requested used : String) : List Warning :=
  if used = requested then [] else [.renamed requested used]

end Mockup.Jsx
