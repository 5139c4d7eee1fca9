import Mockup.Ui.Tree

/-!
# Interchange of user-interface trees

Trees are written as objects whose tag `type` names the kind of a node. A node inside another one is
read from values that were set aside with the outer node, where a tag may also be a position.
-/

namespace Mockup.Ui

/-! ### Fields and actions -/

/-- The name of a control. -/
def FieldComponent.name : FieldComponent → String
  | .input => "Input"
  | .textarea => "Textarea"
  | .select => "Select"
  | .checkbox => "Checkbox"
  | .switch => "Switch"
  | .button => "Button"

/-- The names of the controls. -/
def FieldComponent.names : List (String × FieldComponent) :=
  [("Input", .input), ("Textarea", .textarea), ("Select", .select), ("Checkbox", .checkbox),
    ("Switch", .switch), ("Button", .button)]

/-- Reading the name of a control gives back the control. -/
theorem FieldComponent.variantOf_name (c : FieldComponent) :
    Json.variantOf names c.name = .ok c := by
  cases c <;> rfl

/-- A field as an object. -/
def Field.encode (f : Field) : Json :=
  .object ([("name", .string f.name)] ++
    Json.optional "label" .string f.label ++
    [("component", .string f.component.name)] ++
    Json.optional "required" .bool f.required ++
    Json.optional "options" Json.strings f.options ++
    Json.optional "placeholder" .string f.placeholder)

/-- A field from an object or a sequence, wherever it stands. -/
def Field.decodeIn (setting : Json.Setting) (j : Json) : Decoded Field :=
  Json.asStruct setting "Field" j <|
    Field.mk <$> .required "name" Json.asString <*> .nullable "label" Json.asString <*>
      .required "component" (Json.asVariant setting FieldComponent.names) <*>
      .nullable "required" Json.asBool <*> .nullable "options" Json.asStrings <*>
      .nullable "placeholder" Json.asString

/-- A field from a value of its own. -/
def Field.decode : Json → Decoded Field :=
  decodeIn .direct

/-- An action as an object. -/
def SubmitAction.encode : SubmitAction → Json
  | .httpPost url => .object [("type", .string "http.post"), ("url", .string url)]
  | .openApi specUrl operationId =>
    .object [("type", .string "openapi.op"), ("specUrl", .string specUrl),
      ("operationId", .string operationId)]
  | .supabaseInsert table =>
    .object [("type", .string "supabase.insert"), ("table", .string table)]
  | .graphql endpoint document =>
    .object [("type", .string "graphql.mutation"), ("endpoint", .string endpoint),
      ("document", .string document)]

/-- The kinds of actions by their tags, each with its fields. -/
def SubmitAction.variants {whole : Json} : List (String × Json.Variant whole SubmitAction) :=
  let text (key : String) : Json.Members whole String := .required key Json.asString
  [("http.post", ⟨"HttpPost", SubmitAction.httpPost <$> text "url"⟩),
    ("openapi.op", ⟨"OpenApiOp",
      SubmitAction.openApi <$> text "specUrl" <*> text "operationId"⟩),
    ("supabase.insert", ⟨"SupabaseInsert", SubmitAction.supabaseInsert <$> text "table"⟩),
    ("graphql.mutation", ⟨"GraphqlMutation",
      SubmitAction.graphql <$> text "endpoint" <*> text "document"⟩)]

/-- An action from an object or a sequence. -/
def SubmitAction.decode (setting : Json.Setting) (j : Json) : Decoded SubmitAction :=
  Json.asTagged setting "SubmitAction" "type" j variants

/-- Actions as an object. -/
def FormActions.encode (a : FormActions) : Json :=
  .object (Json.optional "onSubmit" SubmitAction.encode a.onSubmit)

/-- Actions from an object or a sequence. -/
def FormActions.decode (setting : Json.Setting) (j : Json) : Decoded FormActions :=
  Json.asStruct setting "FormActions" j <|
    FormActions.mk <$> .nullable "onSubmit" (SubmitAction.decode setting)

/-! ### Nodes -/

mutual

/-- A node as an object. -/
def Node.encode : Node → Json
  | .text role content style =>
    .object [("type", .string "Text"), ("role", .string role.name), ("content", .string content),
      ("style", style.encode)]
  | .image src alt style =>
    .object ([("type", .string "Image")] ++ Json.optional "src" .string src ++
      Json.optional "alt" .string alt ++ [("style", style.encode)])
  | .icon name style =>
    .object [("type", .string "Icon"), ("name", .string name), ("style", style.encode)]
  | .frame layout style children =>
    .object [("type", .string "Frame"), ("layout", layout.encode), ("style", style.encode),
      ("children", .array (Node.encodeAll children))]
  | .form name fields actions style =>
    .object ([("type", .string "Form"), ("name", .string name),
        ("fields", .array (fields.map Field.encode))] ++
      Json.optional "actions" FormActions.encode actions ++ [("style", style.encode)])
  | .list items style =>
    .object [("type", .string "List"), ("items", .array (Node.encodeItems items)),
      ("style", style.encode)]
  | .button label style =>
    .object [("type", .string "Button"), ("label", .string label), ("style", style.encode)]

/-- Each of a list of nodes as an object. -/
def Node.encodeAll : List Node → List Json
  | [] => []
  | n :: ns => Node.encode n :: Node.encodeAll ns

/-- Each item as a string or an object. -/
def Node.encodeItems : List (Content Node) → List Json
  | [] => []
  | .text s :: cs => .string s :: Node.encodeItems cs
  | .node n :: cs => Node.encode n :: Node.encodeItems cs

end

/-- The kinds of nodes by their tags, each with its fields. Everything in a node was set aside with
it; `node` decodes the nodes below. -/
def Node.variants {whole : Json} (node : (j : Json) → sizeOf j < sizeOf whole → Decoded Node) :
    List (String × Json.Variant whole Node) :=
  let style : Json.Members whole Style := .defaulted "style" {} (Style.decodeIn .inside)
  [("Text", ⟨"Text",
      Node.text <$>
        .defaulted "role" .paragraph (Json.asVariant .inside TextRole.names) <*>
        .required "content" Json.asString <*> style⟩),
    ("Image", ⟨"Image",
      Node.image <$> .nullable "src" Json.asString <*> .nullable "alt" Json.asString <*> style⟩),
    ("Icon", ⟨"Icon", Node.icon <$> .required "name" Json.asString <*> style⟩),
    ("Frame", ⟨"Frame",
      Node.frame <$> .defaulted "layout" {} (Layout.decodeIn .inside) <*> style <*>
        .field "children" (some []) fun j hj => j.asList fun k hk => node k (Nat.lt_trans hk hj)⟩),
    ("Form", ⟨"Form",
      Node.form <$> .required "name" Json.asString <*>
        .required "fields" (fun j => j.asList fun k _ => Field.decodeIn .inside k) <*>
        .nullable "actions" (FormActions.decode .inside) <*> style⟩),
    ("List", ⟨"List",
      Node.list <$>
        .field "items" none (fun j hj => j.asList fun k hk =>
          Json.asContent "ListItem" k (node k (Nat.lt_trans hk hj))) <*>
        style⟩),
    ("Button", ⟨"Button", Node.button <$> .required "label" Json.asString <*> style⟩)]

/-- A node from an object or a sequence. -/
def Node.decode (setting : Json.Setting) (j : Json) : Decoded Node :=
  Json.asTagged setting "UiNode" "type" j (Node.variants fun k _ => Node.decode .inside k)
termination_by sizeOf j

/-- An item of a list from a string, an object or a sequence. What is wrong with it is not told. -/
def Node.decodeItem (j : Json) : Decoded (Content Node) :=
  Json.asContent "ListItem" j (Node.decode .inside j)

/-- The name of the only kind of root. -/
def Tree.kinds : List (String × Unit) := [("Frame", ())]

/-- A tree as an object. -/
def Tree.encode (t : Tree) : Json :=
  .object [("type", .string "Frame"), ("layout", t.layout.encode), ("style", t.style.encode),
    ("children", .array (Node.encodeAll t.children))]

/-- A tree from an object or a sequence. -/
def Tree.decode (j : Json) : Decoded Tree :=
  Json.asStruct .direct "UiTree" j <|
    (fun _ layout style children => ⟨layout, style, children⟩) <$>
      .defaulted "type" () (Json.asVariant .direct Tree.kinds) <*>
      .defaulted "layout" {} Layout.decode <*> .defaulted "style" {} Style.decode <*>
      .required "children" fun j => j.asList fun k _ => Node.decode .direct k

end Mockup.Ui
