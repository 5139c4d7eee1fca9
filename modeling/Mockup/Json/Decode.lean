import Mockup.Content
import Mockup.Json.Printer
import Mockup.Text.Visible

/-!
# Decoding JSON values

A decoder turns a value into something of the domain, or says why it cannot. The fields of a
structure are given once, as `Members`, in the order of their declaration; `asStruct` reads them
from an object or from a sequence, and `asTagged` does so for the variant that a tag names. Decoders
of recursive types receive a proof that the part they look at is smaller than the whole.
-/

namespace Mockup

/-- Why a value cannot be decoded. -/
inductive DecodeError where
  /-- A required field is absent. -/
  | missingField (name : String)
  /-- The value is of another kind than expected. -/
  | wrongKind (found : Json) (expected : String)
  /-- The name of a variant stands where its content is due. -/
  | bareVariant
  /-- An integer does not fit. -/
  | outOfRange (n : Int) (expected : String)
  /-- An object that should name one variant has several fields, or none. -/
  | notOneField
  /-- A sequence has another length than expected. -/
  | wrongLength (length : Nat) (expected : String)
  /-- A name is none of the known ones. -/
  | unknownVariant (name : String) (known : List String)
  /-- A value is of none of the forms that a type allows. -/
  | noAlternative (type : String)
  deriving Repr, Inhabited

namespace DecodeError

/-- The kind of a value, and the value itself if it is simple. -/
def shownKind : Json → String
  | .null => "null"
  | .bool b => "boolean \x60" ++ (if b then "true" else "false") ++ "\x60"
  | .number (.integer n) => "integer \x60" ++ toString n ++ "\x60"
  | .number (.float x) => "floating point \x60" ++ Json.floatText x ++ "\x60"
  | .string s => "string " ++ Text.shown s
  | .array _ => "sequence"
  | .object _ => "map"

/-- A name between marks. -/
def marked (name : String) : String :=
  "\x60" ++ name ++ "\x60"

/-- The known names of a variant as a list in words. -/
def oneOf : List String → String
  | [a] => marked a
  | [a, b] => marked a ++ " or " ++ marked b
  | names => "one of " ++ ", ".intercalate (names.map marked)

/-- The text of an error. -/
def message : DecodeError → String
  | .missingField name => "missing field " ++ marked name
  | .wrongKind found expected => "invalid type: " ++ shownKind found ++ ", expected " ++ expected
  | .bareVariant => "invalid type: unit variant, expected newtype variant"
  | .outOfRange n expected =>
    "invalid value: integer " ++ marked (toString n) ++ ", expected " ++ expected
  | .notOneField => "invalid value: map, expected map with a single key"
  | .wrongLength n expected =>
    "invalid length " ++ toString n ++ ", expected " ++ expected
  | .unknownVariant name known =>
    "unknown variant " ++ marked name ++ ", expected " ++ oneOf known
  | .noAlternative type => "data did not match any variant of untagged enum " ++ type

end DecodeError

/-- The outcome of a decoder. -/
abbrev Decoded := Except DecodeError

namespace Json

/-! ### Simple values -/

/-- A string. -/
def asString : Json → Decoded String
  | .string s => .ok s
  | j => .error (.wrongKind j "a string")

/-- A string that names a file. -/
def asPath : Json → Decoded String
  | .string s => .ok s
  | j => .error (.wrongKind j "path string")

/-- A truth value. -/
def asBool : Json → Decoded Bool
  | .bool b => .ok b
  | j => .error (.wrongKind j "a boolean")

/-- A floating-point value; an integer counts as one. -/
def asFloat : Json → Decoded Float
  | .number (.float x) => .ok x
  | .number (.integer n) =>
    .ok (if 0 ≤ n then n.toNat.toUInt64.toFloat else -n.natAbs.toUInt64.toFloat)
  | j => .error (.wrongKind j "f64")

/-- An integer from zero up to a bound. -/
def asNat (bound : Nat) (expected : String) : Json → Decoded Nat
  | .number (.integer n) =>
    if 0 ≤ n ∧ n ≤ bound then .ok n.toNat else .error (.outOfRange n expected)
  | j => .error (.wrongKind j expected)

/-- An integer of 32 bits without sign. -/
def asNat32 : Json → Decoded Nat :=
  asNat (UInt32.size - 1) "u32"

/-- An integer of 64 bits without sign. -/
def asNat64 : Json → Decoded Nat :=
  asNat (UInt64.size - 1) "u64"

/-- A count of things in memory, of 64 bits. -/
def asCount : Json → Decoded Nat :=
  asNat (UInt64.size - 1) "usize"

/-- The value that a name stands for in a table of names. -/
def variantOf {α : Type} (names : List (String × α)) (name : String) : Decoded α :=
  match names.find? fun v => v.1 == name with
  | some v => .ok v.2
  | none => .error (.unknownVariant name (names.map (·.1)))

/-- Whether the values around an object were set aside before it was decoded. An object that stands
inside a tagged one was. Its own tag may then also be the position of the variant, and an empty
object may stand for nothing. -/
inductive Setting where
  | direct
  | inside
  deriving DecidableEq, Repr

/-- Whether a value stands for nothing. -/
def holdsNothing (setting : Setting) : Json → Bool
  | .null => true
  | .object [] => setting == .inside
  | _ => false

/-- A value that is written as its name, or as an object whose only field has that name and holds
nothing. -/
def asVariant {α : Type} (setting : Setting) (names : List (String × α)) : Json → Decoded α
  | .string s => variantOf names s
  | .object [(s, j)] => do
    let a ← variantOf names s
    if holdsNothing setting j then return a else .error (.wrongKind j "unit")
  | .object _ => .error .notOneField
  | j => .error (.wrongKind j "string or map")

/-- What is decoded from a value, or nothing where the value is null. -/
def orNull {α : Type} (j : Json) (decoded : Decoded α) : Decoded (Option α) :=
  match j with
  | .null => .ok none
  | _ => decoded.map some

/-! ### Sequences -/

/-- Decodes each of a list of values. -/
def decodeAll {α : Type} :
    (js : List Json) → ((j : Json) → j ∈ js → Decoded α) → Decoded (List α)
  | [], _ => .ok []
  | j :: js, decode =>
    match decode j (List.mem_cons_self ..) with
    | .error e => .error e
    | .ok a =>
      match decodeAll js fun k h => decode k (List.mem_cons_of_mem _ h) with
      | .error e => .error e
      | .ok as => .ok (a :: as)

/-- The items of an array are smaller than the array. -/
theorem sizeOf_lt_of_mem_array {j : Json} {js : List Json} (h : j ∈ js) :
    sizeOf j < sizeOf (Json.array js) := by
  have := List.sizeOf_lt_of_mem h
  simp only [Json.array.sizeOf_spec]
  omega

/-- A sequence of things of one kind. -/
def asList {α : Type} (whole : Json) (decode : (j : Json) → sizeOf j < sizeOf whole → Decoded α) :
    Decoded (List α) :=
  match whole, decode with
  | .array js, decode => decodeAll js fun j h => decode j (sizeOf_lt_of_mem_array h)
  | j, _ => .error (.wrongKind j "a sequence")

/-- A sequence of strings. -/
def asStrings (j : Json) : Decoded (List String) :=
  asList j fun k _ => asString k

/-- Decodes the value of each field. -/
def decodeFields {α : Type} (decode : Json → Decoded α) :
    List (String × Json) → Decoded (List (String × α))
  | [] => .ok []
  | (k, j) :: fs =>
    match decode j with
    | .error e => .error e
    | .ok a => (decodeFields decode fs).map ((k, a) :: ·)

/-- A dictionary of things of one kind. -/
def asDict {α : Type} (decode : Json → Decoded α) : Json → Decoded (Dict α)
  | .object fields => (decodeFields decode fields).map Dict.ofList
  | j => .error (.wrongKind j "a map")

/-! ### Structures

A structure is written as an object that names its fields, or as a sequence that holds their values
in the order of declaration. The fields that an object has are looked at in key order, and fields
that are missing are reported after that. A sequence is looked at from its start, and may end where
all fields that are left may be absent. -/

/-- The value of a field, which is smaller than the object. -/
def find? (key : String) :
    (fields : List (String × Json)) → Option { j : Json // sizeOf j < sizeOf fields }
  | [] => none
  | (k, j) :: fs =>
    if k = key then some ⟨j, by simp only [List.cons.sizeOf_spec, Prod.mk.sizeOf_spec]; omega⟩
    else (find? key fs).map fun ⟨i, h⟩ =>
      ⟨i, by simp only [List.cons.sizeOf_spec]; omega⟩

/-- What is wrong with the fields of an object. -/
inductive FieldFault where
  /-- A field has a value that cannot be decoded. -/
  | bad (key : String) (e : DecodeError)
  /-- A field that is required is not there. -/
  | absent (key : String)

namespace FieldFault

/-- Of two faults, in the order of declaration, the one that is reported. -/
def first : FieldFault → FieldFault → FieldFault
  | .bad k e, .bad l d => if l < k then .bad l d else .bad k e
  | .absent _, .bad l d => .bad l d
  | f, _ => f

/-- The error that reports a fault. -/
def error : FieldFault → DecodeError
  | .bad _ e => e
  | .absent key => .missingField key

end FieldFault

/-- Values of a sequence that are left. -/
def Values (whole : Json) := { js : List Json // sizeOf js < sizeOf whole }

/-- How some fields of a structure are read from a value, in the order of their declaration. -/
structure Members (whole : Json) (α : Type) where
  /-- The number of the fields. -/
  count : Nat
  /-- Reads the fields from those of an object. -/
  named : (fields : List (String × Json)) → sizeOf fields < sizeOf whole → Except FieldFault α
  /-- Reads the fields from the front of a sequence. The text and the number are for an error: what
  was expected, and how many values were read before. -/
  placed : String → Nat → Values whole → Decoded (α × Values whole)

namespace Members

variable {whole : Json} {α β : Type}

/-- A field, with the value that it has where it is not there; without one it must be there. -/
def field (key : String) (absent : Option α)
    (decode : (j : Json) → sizeOf j < sizeOf whole → Decoded α) : Members whole α where
  count := 1
  named fields h :=
    match find? key fields with
    | some ⟨j, hj⟩ => (decode j (Nat.lt_trans hj h)).mapError (.bad key)
    | none => absent.elim (.error (.absent key)) .ok
  placed expected index
    | ⟨[], h⟩ => absent.elim (.error (.wrongLength index expected)) fun a => .ok (a, ⟨[], h⟩)
    | ⟨j :: js, h⟩ => do
      have hsize : sizeOf (j :: js) = 1 + sizeOf j + sizeOf js := List.cons.sizeOf_spec j js
      let a ← decode j (by omega)
      return (a, ⟨js, by omega⟩)

/-- A field that must be there. -/
def required (key : String) (decode : Json → Decoded α) : Members whole α :=
  field key none fun j _ => decode j

/-- A field with a value for where it is not there. -/
def defaulted (key : String) (absent : α) (decode : Json → Decoded α) : Members whole α :=
  field key (some absent) fun j _ => decode j

/-- A field that may be null or not be there. -/
def nullable (key : String) (decode : Json → Decoded α) : Members whole (Option α) :=
  field key (some none) fun j _ => orNull j (decode j)

/-- No field. -/
def nothing (a : α) : Members whole α where
  count := 0
  named _ _ := .ok a
  placed _ _ rest := .ok (a, rest)

/-- Some fields and the ones after them. -/
def andThen (f : Members whole (α → β)) (x : Members whole α) : Members whole β where
  count := f.count + x.count
  named fields h :=
    match f.named fields h, x.named fields h with
    | .ok g, .ok a => .ok (g a)
    | .ok _, .error e => .error e
    | .error e, .ok _ => .error e
    | .error e, .error d => .error (e.first d)
  placed expected index rest := do
    let (g, rest) ← f.placed expected index rest
    let (a, rest) ← x.placed expected (index + f.count) rest
    return (g a, rest)

instance : Applicative (Members whole) where
  pure := nothing
  seq f x := f.andThen (x ())

/-- A number of elements in words. -/
def elements : Nat → String
  | 1 => "1 element"
  | n => toString n ++ " elements"

/-- Reads a structure from the fields of an object. -/
def ofFields (m : Members whole α) (fields : List (String × Json))
    (h : sizeOf fields < sizeOf whole) : Decoded α :=
  (m.named fields h).mapError FieldFault.error

/-- Reads a structure from a sequence, of which nothing may be left. -/
def ofSequence (m : Members whole α) (setting : Setting) (name : String) (js : Values whole) :
    Decoded α := do
  let (a, rest) ← m.placed (name ++ " with " ++ elements m.count) 0 js
  if rest.val.isEmpty then return a
  else .error (.wrongLength js.val.length (match setting with
    | .direct => "fewer elements in array"
    | .inside => elements m.count ++ " in sequence"))

end Members

/-- A structure with a name. -/
def asStruct {α : Type} (setting : Setting) (name : String) (j : Json)
    (members : Members j α) : Decoded α :=
  match j, members with
  | .object fields, members =>
    members.ofFields fields (by simp only [Json.object.sizeOf_spec]; omega)
  | .array js, members =>
    members.ofSequence setting ("struct " ++ name)
      ⟨js, by simp only [Json.array.sizeOf_spec]; omega⟩
  | j, _ => .error (.wrongKind j ("struct " ++ name))

/-! ### Tagged variants -/

/-- A variant with fields. -/
structure Variant (whole : Json) (α : Type) where
  /-- The name with which errors refer to it. -/
  name : String
  /-- Its fields. -/
  members : Members whole α

/-- The variant that a tag names. -/
def tagged {α : Type} (setting : Setting) (variants : List (String × α)) : Json → Decoded α
  | .string s => variantOf variants s
  | j =>
    match setting, j with
    | .inside, .number (.integer n) =>
      if n < 0 then .error (.wrongKind j "variant identifier")
      else match variants[n.toNat]? with
        | some v => .ok v.2
        | none => .error (.outOfRange n
            ("variant index 0 <= i < " ++ toString variants.length))
    | _, _ => .error (.wrongKind j "variant identifier")

/-- A value of a type with tagged variants: an object with a tag among its fields, or a sequence
with a tag before the values of the fields. The values around the fields are set aside. -/
def asTagged {α : Type} (setting : Setting) (name tag : String) (j : Json)
    (variants : List (String × Variant j α)) : Decoded α :=
  match j, variants with
  | .object fields, variants =>
    match find? tag fields with
    | none => .error (.missingField tag)
    | some ⟨t, _⟩ => do
      let v ← tagged setting variants t
      v.members.ofFields fields (by simp only [Json.object.sizeOf_spec]; omega)
  | .array [], _ => .error (.missingField tag)
  | .array (t :: js), variants => do
    let v ← tagged setting variants t
    v.members.ofSequence .inside ("struct variant " ++ name ++ "::" ++ v.name)
      ⟨js, by simp only [Json.array.sizeOf_spec, List.cons.sizeOf_spec]; omega⟩
  | j, _ => .error (.wrongKind j ("internally tagged enum " ++ name))

/-- A text, or a value of a type whose values are no texts. -/
def asContent {α : Type} (type : String) (j : Json) (decoded : Decoded α) : Decoded (Content α) :=
  match j with
  | .string s => .ok (.text s)
  | _ =>
    match decoded with
    | .ok a => .ok (.node a)
    | .error _ => .error (.noAlternative type)

/-! ### Encoding -/

/-- A field that is written only if it has a value. -/
def optional {α : Type} (key : String) (encode : α → Json) : Option α → List (String × Json)
  | none => []
  | some a => [(key, encode a)]

/-- A sequence of strings as a value. -/
def strings (ss : List String) : Json :=
  .array (ss.map .string)

/-- A dictionary as an object. -/
def ofDict {α : Type} (encode : α → Json) (d : Dict α) : Json :=
  .object (d.entries.map fun e => (e.1, encode e.2))

end Json

end Mockup
