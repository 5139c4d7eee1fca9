import Mockup.Dict
import Mockup.Patch.Edit

/-!
# Patch requests

A request is a list of operations, which run one after the other on what the earlier ones left. An
operation that fails is reported and changes nothing, and the others still run.
-/

namespace Mockup.Patch

/-- Operations to run in order. -/
structure Request where
  /-- The operations. -/
  ops : List Operation
  deriving DecidableEq, Repr

/-- What came of a request. -/
structure Result where
  /-- Whether no operation failed. -/
  success : Bool
  /-- The labels of the operations that changed something. -/
  diffs : List String
  /-- A line for each operation that failed. -/
  errors : List String
  /-- The text that is left, where one text was edited. -/
  source : Option String := none
  deriving DecidableEq, Repr

/-! ### Running operations -/

/-- What came of the operations so far. -/
structure Log where
  /-- The labels of the operations that changed something. -/
  diffs : List String := []
  /-- A line for each operation that failed. -/
  errors : List String := []
  deriving DecidableEq, Repr

/-- The log after an operation. -/
def Log.add (log : Log) (op : Operation) : Except Obstacle (Option String) → Log
  | .ok none => log
  | .ok (some _) => { log with diffs := log.diffs ++ [op.label] }
  | .error f => { log with errors := log.errors ++ [op.label ++ " " ++ f.message] }

/-- The result that a log gives. -/
def Log.result (log : Log) (source : Option String) : Result :=
  { success := log.errors.isEmpty, diffs := log.diffs, errors := log.errors, source }

/-- Runs an operation on a text. -/
def Operation.runOn (op : Operation) (s : String × Log) : String × Log :=
  let outcome := op.applyTo s.1
  let after := match outcome with
    | .ok (some text) => text
    | _ => s.1
  (after, s.2.add op outcome)

/-- Runs an operation on the file that it names. -/
def Operation.runOnFiles (op : Operation) (s : Dict String × Log) : Dict String × Log :=
  match s.1.get? op.file with
  | none => (s.1, s.2.add op (.error .unknownFile))
  | some text =>
    let outcome := op.applyTo text
    let after := match outcome with
      | .ok (some text) => s.1.insert op.file text
      | _ => s.1
    (after, s.2.add op outcome)

namespace Request

/-- Runs the operations on one text, whichever files they name. -/
def applyTo (r : Request) (source : String) : Result :=
  let (after, log) := r.ops.foldl (fun s op => op.runOn s) (source, {})
  log.result (some after)

/-- Runs each operation on the file that it names. -/
def applyToFiles (r : Request) (files : Dict String) : Dict String × Result :=
  let (after, log) := r.ops.foldl (fun s op => op.runOnFiles s) (files, {})
  (after, log.result none)

/-! ### Valid requests -/

/-- The place of the list of operations. -/
def opsPlace : Place := [⟨"ops", none⟩]

/-- The place of an operation. -/
def opPlace (index : Nat) : Place := [⟨"ops", some index⟩]

/-- The problems of operations from a position on. -/
def problemsFrom (index : Nat) : List Operation → List Problem
  | [] => []
  | op :: ops => op.problems (opPlace index) ++ problemsFrom (index + 1) ops

/-- The problems of a request. -/
def problems (r : Request) : List Problem :=
  if r.ops.isEmpty then [⟨opsPlace, .noOperations⟩] else problemsFrom 0 r.ops

/-- Passes if a request has no problems. -/
def validate (r : Request) : Except (List Problem) Unit :=
  Problem.check r.problems

/-! ### Interchange -/

/-- A request as an object. -/
def encode (r : Request) : Json :=
  .object [("ops", .array (r.ops.map Operation.encode))]

/-- A request from an object or a sequence. -/
def decode (j : Json) : Decoded Request :=
  Json.asStruct .direct "PatchRequest" j <|
    Request.mk <$> .required "ops" fun j => j.asList fun k _ => Operation.decode k

/-- The operations and the problems of a list of values from a position on. -/
def readOps (index : Nat) : List Json → List Operation × List Problem
  | [] => ([], [])
  | j :: js =>
    let (ops, problems) := readOps (index + 1) js
    match Operation.decode j with
    | .ok op => (op :: ops, op.problems (opPlace index) ++ problems)
    | .error e => (ops, ⟨opPlace index, .undecodable e⟩ :: problems)

/-- A valid request from a value, or all its problems. -/
def ofJson (j : Json) : Except (List Problem) Request :=
  match j.get? "ops" with
  | none => .error [⟨opsPlace, .missing⟩]
  | some (.array []) => .error [⟨opsPlace, .noOperations⟩]
  | some (.array js) =>
    match readOps 0 js with
    | (ops, []) => .ok ⟨ops⟩
    | (_, problems) => .error problems
  | some _ => .error [⟨opsPlace, .notAList⟩]

end Request

namespace Result

/-- A result as an object. -/
def encode (r : Result) : Json :=
  .object ([("success", .bool r.success), ("diffs", Json.strings r.diffs),
    ("errors", Json.strings r.errors)] ++ Json.optional "source" .string r.source)

/-- A result from an object or a sequence. -/
def decode (j : Json) : Decoded Result :=
  Json.asStruct .direct "PatchResult" j <|
    Result.mk <$> .required "success" Json.asBool <*> .required "diffs" Json.asStrings <*>
      .required "errors" Json.asStrings <*> .nullable "source" Json.asString

end Result

end Mockup.Patch
