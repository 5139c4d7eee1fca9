import Mockup.Text.Blank
import Mockup.Ui.Style

/-!
# Utility classes

The utility classes that give a part of a user interface its style and layout. Colors and lengths
without a class of their own are written in brackets as they are.
-/

namespace Mockup.Tailwind

open Mockup.Ui

/-- A value in brackets. An underscore stands for the blanks inside it. -/
def bracketed (value : String) : String :=
  "[" ++ "_".intercalate (Text.words value) ++ "]"

/-- The class of a corner radius; a radius of zero or below has none. -/
def radiusClass? (radius : Float) : Option String :=
  if radius ≥ 16.0 then some "rounded-2xl"
  else if radius ≥ 8.0 then some "rounded-lg"
  else if radius > 0.0 then some "rounded-md"
  else none

/-- The class of a shadow. -/
def shadowClass : Shadow → String
  | .small => "shadow-sm"
  | .medium => "shadow-md"
  | .large => "shadow-lg"

/-- The classes of a border. -/
def borderClasses : Border → List String
  | .enabled true => ["border"]
  | .enabled false => []
  | .color c => ["border", "border-" ++ bracketed c]

/-- The classes of a style. -/
def styleClasses (s : Style) : List String :=
  (s.background.map fun c => "bg-" ++ bracketed c).toList ++
    (s.color.map fun c => "text-" ++ bracketed c).toList ++
    (s.radius.bind radiusClass?).toList ++
    (s.shadow.map shadowClass).toList ++
    (s.border.map borderClasses).getD []

/-- The smallest integer of 64 bits. -/
def minInt : Int := Int64.minValue.toInt

/-- The largest integer of 64 bits. -/
def maxInt : Int := Int64.maxValue.toInt

/-- A number of pixels without a unit. An integral value is written as an integer of 64 bits, the
nearest one if it is beyond their range; another value with the fewest digits that read back. -/
def pixels (x : Float) : String :=
  match Binary.ofFloat? x with
  | none => if x.isNaN then "NaN" else if x < 0.0 then "-inf" else "inf"
  | some b =>
    if b.isIntegral then toString (max minInt (min maxInt b.truncated))
    else (if b.negative then "-" else "") ++ (Decimal.shortest .up b).positional

/-- The class of a distance in pixels; a distance of zero or below has none. -/
def distanceClass? (name : String) (distance : Option Float) : Option String :=
  (distance.filter fun d => d > 0.0).map fun d => name ++ "-[" ++ pixels d ++ "px]"

/-- The classes of a display mode. -/
def displayClasses (l : Layout) : List String :=
  match l.display with
  | .flex => ["flex", if l.direction == some .row then "flex-row" else "flex-col"]
  | .grid => ["grid", "grid-cols-" ++ toString (max 1 (l.columns.getD 1))]
  | .block => ["block"]

/-- The class of a placement across the direction. -/
def alignClass : Ui.Alignment → String
  | .start => "items-start"
  | .center => "items-center"
  | .end => "items-end"
  | .between => "content-between"
  | .around => "content-around"

/-- The class of a placement along the direction. -/
def justifyClass : Ui.Alignment → String
  | .start => "justify-start"
  | .center => "justify-center"
  | .end => "justify-end"
  | .between => "justify-between"
  | .around => "justify-around"

/-- The classes of a layout. -/
def layoutClasses (l : Layout) : List String :=
  displayClasses l ++
    (distanceClass? "gap" l.gap).toList ++
    (distanceClass? "p" l.padding).toList ++
    (l.align.map alignClass).toList ++
    (l.justify.map justifyClass).toList

/-- The classes of a style as one text. -/
def styleText (s : Style) : String :=
  " ".intercalate (styleClasses s)

/-- The classes of a container, if there is one, and of a style as one text. -/
def nodeText (layout : Option Layout) (s : Style) : String :=
  " ".intercalate ((layout.map layoutClasses).getD [] ++ styleClasses s)

end Mockup.Tailwind
