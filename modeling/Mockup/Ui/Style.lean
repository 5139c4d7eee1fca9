import Mockup.Json.Decode

/-!
# Style and layout

How a part of a user interface looks and how it arranges its children. All but the display mode is
optional, and an object names only what is set.
-/

namespace Mockup.Ui

/-- How a container arranges its children. -/
inductive Display where
  | flex
  | grid
  | block
  deriving DecidableEq, Repr, Inhabited

/-- The direction of a row or column. -/
inductive Direction where
  | row
  | column
  deriving DecidableEq, Repr

/-- Where children are placed along an axis. -/
inductive Alignment where
  | start
  | center
  | «end»
  | between
  | around
  deriving DecidableEq, Repr

/-- The depth of a shadow. -/
inductive Shadow where
  | small
  | medium
  | large
  deriving DecidableEq, Repr

/-- The arrangement of a container. -/
structure Layout where
  /-- The display mode. -/
  display : Display := .flex
  /-- The direction; a column where it is left out. -/
  direction : Option Direction := none
  /-- The distance between children, in pixels. -/
  gap : Option Float := none
  /-- The distance from the edges, in pixels. -/
  padding : Option Float := none
  /-- The number of columns of a grid. -/
  columns : Option Nat := none
  /-- The placement across the direction. -/
  align : Option Alignment := none
  /-- The placement along the direction. -/
  justify : Option Alignment := none
  deriving DecidableEq, Repr, Inhabited

/-- A column with a gap and, if given, a padding. -/
def Layout.column (gap : Float) (padding : Option Float) : Layout :=
  { direction := some .column, gap := some gap, padding }

/-- A border: a switch for the usual one, or the color of one. -/
inductive Border where
  | enabled (b : Bool)
  | color (c : String)
  deriving DecidableEq, Repr

/-- The look of a part. -/
structure Style where
  /-- The background color. -/
  background : Option String := none
  /-- The text color. -/
  color : Option String := none
  /-- The radius of the corners, in pixels. -/
  radius : Option Float := none
  /-- The shadow. -/
  shadow : Option Shadow := none
  /-- The border. -/
  border : Option Border := none
  deriving DecidableEq, Repr, Inhabited

/-- Whether nothing is set. -/
def Style.isEmpty (s : Style) : Bool :=
  s == {}

/-! ### Interchange -/

/-- The names of the display modes. -/
def Display.names : List (String × Display) :=
  [("flex", .flex), ("grid", .grid), ("block", .block)]

/-- The name of a display mode. -/
def Display.name : Display → String
  | .flex => "flex"
  | .grid => "grid"
  | .block => "block"

/-- The names of the directions. -/
def Direction.names : List (String × Direction) :=
  [("row", .row), ("column", .column)]

/-- The name of a direction. -/
def Direction.name : Direction → String
  | .row => "row"
  | .column => "column"

/-- The names of the alignments. -/
def Alignment.names : List (String × Alignment) :=
  [("start", .start), ("center", .center), ("end", .end), ("between", .between),
    ("around", .around)]

/-- The name of an alignment. -/
def Alignment.name : Alignment → String
  | .start => "start"
  | .center => "center"
  | .end => "end"
  | .between => "between"
  | .around => "around"

/-- The names of the shadows. -/
def Shadow.names : List (String × Shadow) :=
  [("sm", .small), ("md", .medium), ("lg", .large)]

/-- The name of a shadow. -/
def Shadow.name : Shadow → String
  | .small => "sm"
  | .medium => "md"
  | .large => "lg"

/-- Reading the name of a display mode gives back the mode. -/
theorem Display.variantOf_name (d : Display) : Json.variantOf names d.name = .ok d := by
  cases d <;> rfl

/-- Reading the name of a direction gives back the direction. -/
theorem Direction.variantOf_name (d : Direction) : Json.variantOf names d.name = .ok d := by
  cases d <;> rfl

/-- Reading the name of an alignment gives back the alignment. -/
theorem Alignment.variantOf_name (a : Alignment) : Json.variantOf names a.name = .ok a := by
  cases a <;> rfl

/-- Reading the name of a shadow gives back the shadow. -/
theorem Shadow.variantOf_name (s : Shadow) : Json.variantOf names s.name = .ok s := by
  cases s <;> rfl

/-- A layout as an object. -/
def Layout.encode (l : Layout) : Json :=
  .object ([("display", .string l.display.name)] ++
    Json.optional "direction" (fun d : Direction => .string d.name) l.direction ++
    Json.optional "gap" .float l.gap ++
    Json.optional "padding" .float l.padding ++
    Json.optional "columns" .nat l.columns ++
    Json.optional "align" (fun a : Alignment => .string a.name) l.align ++
    Json.optional "justify" (fun a : Alignment => .string a.name) l.justify)

/-- A layout from an object or a sequence, wherever it stands. -/
def Layout.decodeIn (setting : Json.Setting) (j : Json) : Decoded Layout :=
  Json.asStruct setting "Layout" j <|
    Layout.mk <$> .defaulted "display" .flex (Json.asVariant setting Display.names) <*>
      .nullable "direction" (Json.asVariant setting Direction.names) <*>
      .nullable "gap" Json.asFloat <*> .nullable "padding" Json.asFloat <*>
      .nullable "columns" Json.asNat32 <*>
      .nullable "align" (Json.asVariant setting Alignment.names) <*>
      .nullable "justify" (Json.asVariant setting Alignment.names)

/-- A layout from a value of its own. -/
def Layout.decode : Json → Decoded Layout :=
  decodeIn .direct

/-- A border as a truth value or a string. -/
def Border.encode : Border → Json
  | .enabled b => .bool b
  | .color c => .string c

/-- A border from a truth value or a string. -/
def Border.decode : Json → Decoded Border
  | .bool b => .ok (.enabled b)
  | .string c => .ok (.color c)
  | _ => .error (.noAlternative "Border")

/-- A style as an object. -/
def Style.encode (s : Style) : Json :=
  .object (Json.optional "bg" .string s.background ++
    Json.optional "color" .string s.color ++
    Json.optional "radius" .float s.radius ++
    Json.optional "shadow" (fun h : Shadow => .string h.name) s.shadow ++
    Json.optional "border" Border.encode s.border)

/-- A style from an object or a sequence, wherever it stands. -/
def Style.decodeIn (setting : Json.Setting) (j : Json) : Decoded Style :=
  Json.asStruct setting "Style" j <|
    Style.mk <$> .nullable "bg" Json.asString <*> .nullable "color" Json.asString <*>
      .nullable "radius" Json.asFloat <*>
      .nullable "shadow" (Json.asVariant setting Shadow.names) <*>
      .nullable "border" Border.decode

/-- A style from a value of its own. -/
def Style.decode : Json → Decoded Style :=
  decodeIn .direct

end Mockup.Ui
