import Mockup.Text.Offset

/-!
# Cursors

A cursor is a place in a text that is read from front to back. It knows what it has passed, so that
the text since an earlier place can be asked for.
-/

namespace Mockup.Jsx

/-- A place in a text. -/
structure Cursor where
  /-- What was passed, the nearest character first. -/
  behind : List Char
  /-- The place as a byte offset. -/
  offset : Nat
  /-- The offset is the length of what was passed. -/
  offset_eq : offset = Text.byteLength behind

namespace Cursor

/-- The place before the first character. -/
def start : Cursor := ⟨[], 0, rfl⟩

instance : Inhabited Cursor := ⟨start⟩

/-- The place after the next character. -/
def advance (here : Cursor) (c : Char) : Cursor :=
  ⟨c :: here.behind, here.offset + c.utf8Size, by simp [here.offset_eq, Nat.add_comm]⟩

/-- The text from an earlier offset up to the cursor. -/
def since (here : Cursor) (offset : Nat) : List Char :=
  (Text.takeBytes (here.offset - offset) here.behind).reverse

/-- After a character the cursor has passed that character too. -/
@[simp]
theorem behind_advance (here : Cursor) (c : Char) :
    (here.advance c).behind = c :: here.behind := rfl

/-- A character moves the cursor by the bytes that encode it. -/
@[simp]
theorem offset_advance (here : Cursor) (c : Char) :
    (here.advance c).offset = here.offset + c.utf8Size := rfl

end Cursor

end Mockup.Jsx
