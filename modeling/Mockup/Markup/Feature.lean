import Mockup.Decimal.Reader
import Mockup.Markup.Element

/-!
# Features

A feature is one element of a mockup on its own: its name, its attributes by name, its first text
and, if it has a size, the box that it covers. `Features` lists them by a stack of elements whose
features are still to come.
-/

namespace Mockup.Markup

/-- The characters of a number that may stand after `seenDot`: digits, and one point. -/
def numberTail (seenDot : Bool) : List Char → List Char
  | [] => []
  | c :: cs =>
    if c.isDigit then c :: numberTail seenDot cs
    else if c = '.' ∧ !seenDot then c :: numberTail true cs
    else []

/-- The longest beginning of a text that has the form of a number: a sign, digits and one point. -/
def numberFront : List Char → List Char
  | [] => []
  | c :: cs =>
    if c = '+' ∨ c = '-' then c :: numberTail false cs else numberTail false (c :: cs)

/-- The number with which an attribute value begins, after blanks: `24px` gives 24. Values beyond
the range of numbers give none. -/
def number? (value : String) : Option Float :=
  let front := numberFront (Text.trimmed value.toList)
  if front.any Char.isDigit then (Decimal.floatOf? front).filter Float.isFinite else none

/-- The box that an element covers. -/
structure Bounds where
  /-- The left edge. -/
  x : Float
  /-- The upper edge. -/
  y : Float
  /-- The width, more than zero. -/
  width : Float
  /-- The height, more than zero. -/
  height : Float
  deriving Repr, DecidableEq

/-- The number that an attribute of an element begins with. -/
def Element.number? (e : Element) (name : String) : Option Float :=
  (e.attribute? name).bind Markup.number?

/-- The box of an element that has a width and a height above zero. -/
def Bounds.ofElement? (e : Element) : Option Bounds := do
  let width ← e.number? "width"
  let height ← e.number? "height"
  if width ≤ 0.0 || height ≤ 0.0 then none
  else some ⟨(e.number? "x").getD 0.0, (e.number? "y").getD 0.0, width, height⟩

/-- One element of a mockup on its own. -/
structure Feature where
  /-- The name of the element. -/
  kind : String
  /-- Its attributes by name; of attributes with one name the last counts. -/
  attributes : Dict String
  /-- Its first text. -/
  text : Option String
  /-- The box that it covers. -/
  bounds : Option Bounds

namespace Feature

/-- The feature of an element. -/
def ofElement (e : Element) : Feature :=
  { kind := e.name
    attributes := Dict.ofList e.attributes
    text := e.firstText
    bounds := Bounds.ofElement? e }

/-- The value of an attribute. -/
def attribute? (f : Feature) (name : String) : Option String :=
  f.attributes.get? name

/-- Whether the feature is of an element that only groups others. -/
def isGroup (f : Feature) : Bool :=
  f.kind == "g" || f.kind == "svg"

end Feature

/-! ### The sequence of features -/

/-- A sequence of features that is being listed: the elements whose features, and those of what they
hold, are still to come, the next one first. -/
structure Features where
  /-- The elements that are still to come. -/
  stack : List Element

namespace Features

/-- The sequence of an element and all below it. -/
def start (e : Element) : Features := ⟨[e]⟩

/-- The next feature, and the sequence after it. -/
def next? (s : Features) : Option (Feature × Features) :=
  match s.stack with
  | [] => none
  | e :: stack => some (.ofElement e, ⟨e.elements ++ stack⟩)

/-- The number of features that are still to come. -/
def remaining (s : Features) : Nat :=
  (s.stack.flatMap Element.walk).length

/-- Each feature that is listed leaves one less to come. -/
theorem remaining_next {s t : Features} {f : Feature} (h : s.next? = some (f, t)) :
    s.remaining = t.remaining + 1 := by
  obtain ⟨stack⟩ := s
  cases stack with
  | nil => simp [next?] at h
  | cons e stack =>
    simp only [next?, Option.some.injEq, Prod.mk.injEq] at h
    obtain ⟨_, rfl⟩ := h
    have hd : e.descendants = e.elements.flatMap Element.walk := Element.descendants_eq e
    simp only [remaining, List.flatMap_cons, List.flatMap_append, Element.walk, hd,
      List.length_append, List.length_cons]
    omega

/-- The features that are still to come, in order. -/
def toList (s : Features) : List Feature :=
  match h : s.next? with
  | none => []
  | some (f, t) =>
    have := remaining_next h
    f :: toList t
termination_by s.remaining

end Features

/-- The features of an element and all below it, each before the ones that it holds. -/
def Element.features (e : Element) : List Feature :=
  (Features.start e).toList

/-! ### Interchange -/

/-- A box as an object. -/
def Bounds.encode (b : Bounds) : Json :=
  .object [("x", .float b.x), ("y", .float b.y), ("width", .float b.width),
    ("height", .float b.height)]

/-- A box from an object or a sequence. -/
def Bounds.decode (j : Json) : Decoded Bounds :=
  Json.asStruct .direct "Bounds" j <|
    Bounds.mk <$> .required "x" Json.asFloat <*> .required "y" Json.asFloat <*>
      .required "width" Json.asFloat <*> .required "height" Json.asFloat

/-- A feature as an object. -/
def Feature.encode (f : Feature) : Json :=
  .object ([("type", .string f.kind), ("attributes", .ofDict .string f.attributes)] ++
    Json.optional "text" .string f.text ++ Json.optional "bounds" Bounds.encode f.bounds)

/-- A feature from an object or a sequence. -/
def Feature.decode (j : Json) : Decoded Feature :=
  Json.asStruct .direct "Feature" j <|
    Feature.mk <$> .required "type" Json.asString <*>
      .required "attributes" (Json.asDict Json.asString) <*> .nullable "text" Json.asString <*>
      .nullable "bounds" Bounds.decode

end Mockup.Markup
