/-!
# Byte offsets

Places in a text are counted in bytes of its UTF-8 encoding. `takeBytes` and `dropBytes` cut a text
at such an offset and `slice` takes what stands between two of them; a cut at an offset inside a
character falls after that character.
-/

namespace Mockup.Text

/-- The number of bytes that encode a text. -/
def byteLength : List Char → Nat
  | [] => 0
  | c :: cs => c.utf8Size + byteLength cs

@[simp]
theorem byteLength_nil : byteLength [] = 0 := rfl

@[simp]
theorem byteLength_cons (c : Char) (cs : List Char) :
    byteLength (c :: cs) = c.utf8Size + byteLength cs := rfl

/-- The bytes of a text are those of its parts. -/
@[simp]
theorem byteLength_append (as bs : List Char) :
    byteLength (as ++ bs) = byteLength as + byteLength bs := by
  induction as with
  | nil => simp
  | cons c cs ih => simp [ih, Nat.add_assoc]

/-- The text before a byte offset. -/
def takeBytes : Nat → List Char → List Char
  | _, [] => []
  | n, c :: cs => if n = 0 then [] else c :: takeBytes (n - c.utf8Size) cs

/-- The text from a byte offset on. -/
def dropBytes : Nat → List Char → List Char
  | _, [] => []
  | n, c :: cs => if n = 0 then c :: cs else dropBytes (n - c.utf8Size) cs

/-- The text between two byte offsets. -/
def slice (start stop : Nat) (cs : List Char) : List Char :=
  takeBytes (stop - start) (dropBytes start cs)

@[simp]
theorem takeBytes_zero (cs : List Char) : takeBytes 0 cs = [] := by
  cases cs <;> simp [takeBytes]

@[simp]
theorem dropBytes_zero (cs : List Char) : dropBytes 0 cs = cs := by
  cases cs <;> simp [dropBytes]

/-- Cutting at the length of a first part gives back that part. -/
@[simp]
theorem takeBytes_append (as bs : List Char) : takeBytes (byteLength as) (as ++ bs) = as := by
  induction as with
  | nil => simp
  | cons c cs ih =>
    have := c.utf8Size_pos
    simp [takeBytes, ih]
    omega

/-- Cutting at the length of a first part gives the other part. -/
@[simp]
theorem dropBytes_append (as bs : List Char) : dropBytes (byteLength as) (as ++ bs) = bs := by
  induction as with
  | nil => simp
  | cons c cs ih =>
    have := c.utf8Size_pos
    simp only [byteLength_cons, List.cons_append, dropBytes]
    rw [if_neg (by omega), Nat.add_sub_cancel_left, ih]

/-- The slice between the two ends of a middle part is that part. -/
theorem slice_append (as bs cs : List Char) :
    slice (byteLength as) (byteLength as + byteLength bs) (as ++ bs ++ cs) = bs := by
  simp only [slice, List.append_assoc, dropBytes_append]
  rw [show byteLength as + byteLength bs - byteLength as = byteLength bs by omega,
    takeBytes_append]

end Mockup.Text
