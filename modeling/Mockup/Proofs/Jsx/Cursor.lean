import Mockup.Jsx.Cursor
import Mockup.Proofs.Text.Span

/-!
# What a cursor has passed

The text that a cursor has passed, from front to back. The text since an earlier place is what was
passed after it.
-/

namespace Mockup.Jsx.Cursor

/-- The text that a cursor has passed. -/
def passed (here : Cursor) : List Char :=
  here.behind.reverse

@[simp]
theorem passed_start : start.passed = [] := rfl

@[simp]
theorem passed_advance (here : Cursor) (c : Char) :
    (here.advance c).passed = here.passed ++ [c] := by
  simp [passed]

/-- A cursor stands at the end of what it has passed. -/
theorem offset_eq_byteLength (here : Cursor) : here.offset = Text.byteLength here.passed := by
  rw [passed, Text.byteLength_reverse, here.offset_eq]

/-- What was passed after a first part is the text since the end of that part. -/
theorem since_eq {here : Cursor} {before after : List Char} (h : here.passed = before ++ after) :
    here.since (Text.byteLength before) = after := by
  have hbehind : here.behind = after.reverse ++ before.reverse := by
    rw [← List.reverse_reverse here.behind, ← passed, h, List.reverse_append]
  have hlen : here.offset - Text.byteLength before = Text.byteLength after.reverse := by
    rw [offset_eq_byteLength, h, Text.byteLength_append, Text.byteLength_reverse]
    omega
  rw [since, hlen, hbehind, Text.takeBytes_append, List.reverse_reverse]

/-- The place of a cursor is a boundary of what it has passed. -/
theorem isBoundary (here : Cursor) : Text.IsBoundary here.passed here.offset := by
  rw [offset_eq_byteLength]
  exact .last _

/-- The next character stands at the place of the cursor. -/
theorem hasAt_advance (here : Cursor) (c : Char) :
    Text.HasAt (here.advance c).passed here.offset [c] := by
  rw [passed_advance, offset_eq_byteLength]
  exact .last ..

/-- Cursors that have passed the same text are the same. -/
theorem ext_passed {here there : Cursor} (h : here.passed = there.passed) : here = there := by
  have hoffset : here.offset = there.offset := by
    rw [offset_eq_byteLength, h, offset_eq_byteLength]
  have hbehind : here.behind = there.behind := List.reverse_inj.1 h
  cases here
  cases there
  simp_all

end Mockup.Jsx.Cursor
