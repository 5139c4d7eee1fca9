import Mockup.Dict
import Mockup.Yaml.Basic

/-!
# Decoding YAML values

A decoder turns a value into something of the domain, or fails. Where a list or an object is due,
null stands for an empty one.
-/

namespace Mockup.Yaml

/-- Whether a value stands for nothing. -/
def isNull : Yaml → Bool
  | .scalar s true => isNullText s
  | _ => false

/-- A text. Any scalar is one. -/
def asText? : Yaml → Option String
  | .scalar s _ => some s
  | _ => none

/-- A number of 64 bits without sign. -/
def asNat64? : Yaml → Option Nat
  | .scalar s true =>
    match intOf? s.toList with
    | some n =>
      if 0 ≤ n ∧ n.toNat < UInt64.size ∧ s.toList.head? ≠ some '-' then some n.toNat else none
    | none => none
  | _ => none

/-- A sequence of things of one kind. -/
def asList? {α : Type} (decode : Yaml → Option α) : Yaml → Option (List α)
  | .sequence vs => vs.mapM decode
  | v => if v.isNull then some [] else none

/-- The entries of an object that stands for a structure. -/
def entries? : Yaml → Option (List (String × Yaml))
  | .mapping es => some es
  | v => if v.isNull then some [] else none

/-- The value of an entry that may be absent, but not be there twice. -/
def present? {α : Type} (es : List (String × Yaml)) (key : String) (decode : Yaml → Option α) :
    Option (Option α) :=
  match es.filter fun e => e.1 == key with
  | [] => some none
  | [e] => (decode e.2).map some
  | _ => none

/-- The value of an entry that may be absent or null. -/
def nullable? {α : Type} (es : List (String × Yaml)) (key : String) (decode : Yaml → Option α) :
    Option (Option α) :=
  (present? es key fun v => if v.isNull then some none else (decode v).map some).map Option.join

/-- Whether an integer can be held in words of this many bits, with a sign if it is negative. -/
def fits (bits : Nat) (n : Int) : Bool :=
  if n < 0 then n.natAbs ≤ Nat.pow 2 (bits - 1) else n.natAbs < Nat.pow 2 bits

/-- The value that a plain text stands for. An integer of more than 64 bits has none, and one of
more than 128 bits is no longer read as an integer. -/
def plainValue? (s : String) : Option Json :=
  if isNullText s then some .null
  else match boolOf? s with
    | some b => some (.bool b)
    | none =>
      match intOf? s.toList with
      | some n =>
        if fits 64 n then some (.int n)
        else if fits 128 n then none
        else some (((floatOf? s).map Json.float).getD (.string s))
      | none => some (((floatOf? s).map Json.float).getD (.string s))

mutual

/-- The same value in the interchange format. -/
def toJson? : Yaml → Option Json
  | .scalar s true => plainValue? s
  | .scalar s false => some (.string s)
  | .sequence vs => (toJsonItems? vs).map .array
  | .mapping es => (toJsonEntries? es).map fun fs => .object (Dict.ofList fs).entries

/-- Each of a list of values in the interchange format. -/
def toJsonItems? : List Yaml → Option (List Json)
  | [] => some []
  | v :: vs => do return (← toJson? v) :: (← toJsonItems? vs)

/-- The value of each entry in the interchange format. -/
def toJsonEntries? : List (String × Yaml) → Option (List (String × Json))
  | [] => some []
  | (k, v) :: es => do return (k, ← toJson? v) :: (← toJsonEntries? es)

end

/-- A dictionary of values in the interchange format. -/
def asDict? : Yaml → Option (Dict Json)
  | .mapping es => (toJsonEntries? es).map Dict.ofList
  | v => if v.isNull then some .empty else none

end Mockup.Yaml
