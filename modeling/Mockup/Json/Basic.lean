import Mockup.Decimal.Shortest
import Mockup.Dict

/-!
# JSON values

The values of the interchange format. Numbers keep apart the integers of 64 bits and all others,
which are floating-point values. The fields of an object stand in the order in which they are
written; `Json.sorted` puts them into key order.
-/

namespace Mockup

/-- A JSON number. -/
inductive Json.Number where
  /-- An integer, from `-2 ^ 63` to `2 ^ 64 - 1`. -/
  | integer (n : Int)
  /-- A floating-point value. -/
  | float (x : Float)
  deriving Repr, DecidableEq, Inhabited

/-- A JSON value. -/
inductive Json where
  | null
  | bool (b : Bool)
  | number (n : Json.Number)
  | string (s : String)
  | array (items : List Json)
  | object (fields : List (String × Json))
  deriving Repr, Inhabited

namespace Json

/-- An integer as a value. -/
def int (n : Int) : Json := .number (.integer n)

/-- A natural number as a value. -/
def nat (n : Nat) : Json := .number (.integer n)

/-- A floating-point quantity as a value; one that is not finite has no number and becomes null. -/
def float (x : Float) : Json :=
  if x.isFinite then .number (.float x) else .null

mutual

/-- The same value with the fields of every object in key order. Of fields with one key the last
counts. -/
def sorted : Json → Json
  | .array items => .array (sortedItems items)
  | .object fields => .object (Dict.ofList (sortedFields fields)).entries
  | j => j

/-- `sorted` on each item. -/
def sortedItems : List Json → List Json
  | [] => []
  | j :: js => sorted j :: sortedItems js

/-- `sorted` on the value of each field. -/
def sortedFields : List (String × Json) → List (String × Json)
  | [] => []
  | (k, j) :: fs => (k, sorted j) :: sortedFields fs

end

/-- The value of the last field with this key. -/
def get? (key : String) : Json → Option Json
  | .object fields => (fields.reverse.find? fun f => f.1 == key).map (·.2)
  | _ => none

end Json

end Mockup
