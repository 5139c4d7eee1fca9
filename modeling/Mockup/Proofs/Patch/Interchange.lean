import Mockup.Patch.Request
import Mockup.Proofs.Json.Fields

/-!
# Patch requests are read back from their objects

An operation that is written as an object is read back as the same operation, and so is a request.

## Main results

* `Operation.decode_encode`: an operation.
* `Request.decode_encode`: a request.
-/

namespace Mockup.Patch

open Json Json.Members

theorem Operation.decode_encode (op : Operation) : decode op.encode.sorted = .ok op := by
  obtain ⟨fields, hfields⟩ : ∃ fields, op.encode = .object fields := ⟨_, rfl⟩
  have text {whole : Json} (key s : String) (h : op.encode.get? key = some (.string s)) :
      (.required key asString : Members whole String).Reads (inOrder fields) s :=
    reads_string (hfields ▸ h)
  have tag (s : String) (h : op.encode.get? "op" = some (.string s)) :
      (object fields).get? "op" = some (.string s) := hfields ▸ h
  rw [hfields, sorted_object, decode]
  obtain ⟨file, change⟩ := op
  -- The tag picks the kind, and each kind has fields of its own beside the file.
  cases change with
  | element locator change =>
    cases change with
    | addClass classes =>
      exact asTagged_inOrder (tag "addClass" rfl) rfl
        ((((text "file" file rfl).map _).seq (text "jsx" locator rfl)).seq
          (text "className" classes rfl))
    | removeClass classes =>
      exact asTagged_inOrder (tag "removeClass" rfl) rfl
        ((((text "file" file rfl).map _).seq (text "jsx" locator rfl)).seq
          (text "className" classes rfl))
    | replaceClass old new =>
      exact asTagged_inOrder (tag "replaceClass" rfl) rfl
        (((((text "file" file rfl).map _).seq (text "jsx" locator rfl)).seq
          (text "from" old rfl)).seq (text "to" new rfl))
    | setAttribute name value =>
      exact asTagged_inOrder (tag "setAttribute" rfl) rfl
        (((((text "file" file rfl).map _).seq (text "jsx" locator rfl)).seq
          (text "name" name rfl)).seq (text "value" value rfl))
    | insertAfter code =>
      exact asTagged_inOrder (tag "insertAfter" rfl) rfl
        ((((text "file" file rfl).map _).seq (text "targetJsx" locator rfl)).seq
          (text "code" code rfl))
  | text find replacement =>
    exact asTagged_inOrder (tag "textEdit" rfl) rfl
      ((((text "file" file rfl).map _).seq (text "find" find rfl)).seq
        (text "replace" replacement rfl))

/-- An operation is read as well from the sequence of its tag and its fields. -/
theorem Operation.decode_sequence (op : Operation) {fields : List (String × Json)}
    (h : op.encode = .object fields) : decode (.array (fields.map Prod.snd)) = .ok op := by
  cases h
  obtain ⟨file, change⟩ := op
  cases change with
  | element locator change => cases change <;> rfl
  | text find replacement => rfl

example : Operation.decode (.array (["textEdit", "f", "a", "x"].map .string)) =
    .ok ⟨"f", .text "a" "x"⟩ :=
  rfl

theorem Request.decode_encode (r : Request) : decode r.encode.sorted = .ok r := by
  obtain ⟨fields, hfields⟩ : ∃ fields, r.encode = .object fields := ⟨_, rfl⟩
  have ops {whole : Json} : (.required "ops" fun j => j.asList fun k _ => Operation.decode k :
      Members whole _).Reads (inOrder fields) r.ops :=
    reads_required (j := .array (r.ops.map Operation.encode)) (by simp [← hfields, encode])
      (asList_sorted fun op _ => op.decode_encode)
  rw [hfields, sorted_object, decode]
  exact asStruct_object (ops.map _)

end Mockup.Patch
